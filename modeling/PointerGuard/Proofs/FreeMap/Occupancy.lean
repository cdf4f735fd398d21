import Mathlib
import PointerGuard.Proofs.FreeMap.Records

namespace PointerGuard.FreeMap

variable {m m' : FreeMap} {key addr : Word} {pos : Nat}

/-- The slots that hold an address. -/
def taken (m : FreeMap) : Finset Nat :=
  (Finset.range m.capacity).filter fun pos => isMarker (m.slots.get pos) = false

theorem mem_taken : pos ∈ m.taken ↔ pos < m.capacity ∧ isMarker (m.slots.get pos) = false := by
  rw [taken, Finset.mem_filter, Finset.mem_range]

theorem taken_set_of_marker {w : Word} (hw : isMarker w = true) (live : Nat) :
    taken { slots := m.slots.set pos w, live } = m.taken.erase pos := by
  ext p
  rw [Finset.mem_erase, mem_taken, mem_taken, Table.get_set]
  by_cases hp : p = pos <;> simp [hp, hw, capacity]

theorem taken_set_of_address (hpos : pos < m.capacity) (ha : isMarker addr = false) (live : Nat) :
    taken { slots := m.slots.set pos addr, live } = Insert.insert pos m.taken := by
  ext p
  rw [Finset.mem_insert, mem_taken, mem_taken, Table.get_set]
  by_cases hp : p = pos
  · subst hp
    simpa [ha, capacity] using hpos
  · simp [hp, capacity]

/-- The count of live records is the number of slots that hold an address. -/
def Counted (m : FreeMap) : Prop := m.live = m.taken.card

theorem counted_blank (capacity : Nat) : Counted { slots := { len := capacity } } := by
  have hnone : taken { slots := { len := capacity } } = ∅ := by
    refine Finset.filter_eq_empty_iff.mpr fun pos _ => ?_
    simp [isMarker, emptySlot]
  rw [Counted, hnone, Finset.card_empty]

theorem capacity_of_insert (h : m.insert key addr = .ok m') : m'.capacity = m.capacity := by
  obtain ⟨_, _, _, _, rfl⟩ := insert_eq_ok h
  rfl

theorem capacity_of_remove (h : m.remove key addr = .ok m') : m'.capacity = m.capacity := by
  obtain ⟨_, _, rfl⟩ := remove_eq_ok h
  rfl

namespace Counted

theorem insert (h : m.Counted) (hi : m.insert key addr = .ok m') :
    m'.Counted ∧ m'.live = m.live + 1 := by
  obtain ⟨ha, pos, hreach, hm, rfl⟩ := insert_eq_ok hi
  have hfree : pos ∉ m.taken := by
    rw [mem_taken, hm]
    simp
  refine ⟨?_, rfl⟩
  rw [Counted, taken_set_of_address hreach.lt ha, Finset.card_insert_of_notMem hfree, ← h]

theorem remove (h : m.Counted) (hr : m.remove key addr = .ok m') :
    m'.Counted ∧ m'.live + 1 = m.live := by
  obtain ⟨pos, hf, rfl⟩ := remove_eq_ok hr
  obtain ⟨ha, hs, i, hi, hp, _⟩ := find?_eq_some hf
  have htaken : pos ∈ m.taken := by
    rw [mem_taken, hs]
    exact ⟨hp ▸ probe_lt (by omega) key i, ha⟩
  have hlive : 0 < m.live := by
    rw [h]
    exact Finset.card_pos.mpr ⟨pos, htaken⟩
  refine ⟨?_, Nat.sub_add_cancel hlive⟩
  rw [Counted, taken_set_of_marker (by decide), Finset.card_erase_of_mem htaken, ← h]

theorem live_le (h : m.Counted) : m.live ≤ m.capacity := by
  rw [h, ← Finset.card_range m.capacity]
  exact Finset.card_filter_le _ _

/-- Every slot holds an address exactly if the map is full. -/
theorem live_eq_capacity_iff (h : m.Counted) :
    m.live = m.capacity ↔ ∀ pos < m.capacity, isMarker (m.slots.get pos) = false := by
  have hcard : m.live = m.capacity ↔ m.taken.card = (Finset.range m.capacity).card := by
    rw [h, Finset.card_range]
  rw [hcard, taken, Finset.card_filter_eq_iff]
  simp only [Finset.mem_range]

theorem insert_of_room (h : m.Counted) (key : Word) (ha : isMarker addr = false)
    (hroom : m.live ≠ m.capacity) : ∃ m', m.insert key addr = .ok m' := by
  rw [Ne, h.live_eq_capacity_iff, not_forall] at hroom
  obtain ⟨pos, hpos⟩ := hroom
  rw [Classical.not_imp, Bool.not_eq_false] at hpos
  exact insert_of_marker_slot ha hpos.1 hpos.2

/-- An insertion of an address fails exactly if the map is full. -/
theorem insert_eq_exhausted_iff (h : m.Counted) (key : Word) (ha : isMarker addr = false) :
    m.insert key addr = .error (.exhausted .freeMap) ↔ m.live = m.capacity := by
  constructor
  · intro hfail
    by_contra hroom
    obtain ⟨m', hok⟩ := h.insert_of_room key ha hroom
    cases hfail.symm.trans hok
  · intro hfull
    have htaken := h.live_eq_capacity_iff.mp hfull
    have hnone : m.search isMarker key 0 m.capacity = none :=
      search_eq_none_iff.mpr fun j _ hj => htaken _ (probe_lt (by omega) key j)
    rw [FreeMap.insert, if_neg (by simp [ha]), hnone]

end Counted

end PointerGuard.FreeMap
