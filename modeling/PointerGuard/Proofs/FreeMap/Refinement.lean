import Mathlib
import PointerGuard.Proofs.FreeMap.Occupancy
import PointerGuard.Proofs.Runs

namespace PointerGuard.FreeMap

variable {host : Host} {m : FreeMap} {capacity : Nat} {key addr : Word}

inductive Request where
  | insert (key addr : Word)
  | remove (key addr : Word)
deriving DecidableEq, Repr

/-- A change of the map that happens only if it succeeds. -/
def settle (m : FreeMap) : Except Violation FreeMap → Except Violation Unit × FreeMap
  | .ok m' => (.ok (), m')
  | .error v => (.error v, m)

def serve (m : FreeMap) : Request → Except Violation Unit × FreeMap
  | .insert key addr => m.settle (m.insert key addr)
  | .remove key addr => m.settle (m.remove key addr)

/-- The records after a request that was answered so. -/
def note (records : Multiset (Word × Word)) :
    Request → Except Violation Unit → Multiset (Word × Word)
  | .insert key addr, .ok () => (key, addr) ::ₘ records
  | .remove key addr, .ok () => records.erase (key, addr)
  | _, .error _ => records

/-- What a multiset with room for `capacity` records does with a request. -/
inductive Serves (capacity : Nat) : Multiset (Word × Word) → Request →
    Except Violation Unit → Multiset (Word × Word) → Prop
  | inserted {records : Multiset (Word × Word)} {key addr : Word} :
      isMarker addr = false → records.card < capacity →
      Serves capacity records (.insert key addr) (.ok ()) ((key, addr) ::ₘ records)
  | full {records : Multiset (Word × Word)} {key addr : Word} :
      isMarker addr = false → records.card = capacity →
      Serves capacity records (.insert key addr) (.error (.exhausted .freeMap)) records
  | marker {records : Multiset (Word × Word)} {key addr : Word} : isMarker addr = true →
      Serves capacity records (.insert key addr) (.error (.untrackableAddress addr)) records
  | removed {records : Multiset (Word × Word)} {key addr : Word} : (key, addr) ∈ records →
      Serves capacity records (.remove key addr) (.ok ()) (records.erase (key, addr))
  | missing {records : Multiset (Word × Word)} {key addr : Word} :
      addr ∉ records.map Prod.snd →
      Serves capacity records (.remove key addr) (.error (.invalidFree addr key)) records

/-- A free map, and what it was told to record. -/
structure Recorded where
  map : FreeMap
  records : Multiset (Word × Word) := 0

namespace Recorded

def step (t : Recorded) (r : Request) : Recorded :=
  { map := (t.map.serve r).2, records := note t.records r (t.map.serve r).1 }

def after (t : Recorded) (rs : List Request) : Recorded := rs.foldl step t

/-- A removal names a record, or an address that is recorded under no key. -/
def Proper (t : Recorded) : Request → Prop
  | .insert _ _ => True
  | .remove key addr => (key, addr) ∈ t.records ∨ addr ∉ t.records.map Prod.snd

instance (t : Recorded) : (r : Request) → Decidable (t.Proper r)
  | .insert _ _ => inferInstanceAs (Decidable True)
  | .remove key addr =>
    inferInstanceAs (Decidable ((key, addr) ∈ t.records ∨ addr ∉ t.records.map Prod.snd))

end Recorded

theorem Holds.counted {es : List Entry} (h : m.Holds es) : m.Counted := by
  have htaken : m.taken = (es.map Entry.pos).toFinset := by
    ext pos
    rw [mem_taken, List.mem_toFinset, List.mem_map]
    constructor
    · exact fun hpos => h.whole pos hpos.1 hpos.2
    · rintro ⟨e, he, rfl⟩
      obtain ⟨hreach, hs, ha⟩ := h.kept e he
      exact ⟨hreach.lt, by rw [hs, ha]⟩
  rw [Counted, htaken, List.toFinset_card_of_nodup h.apart, List.length_map, h.live]

theorem Carries.counted {rs : List (Word × Word)} (h : m.Carries rs) : m.Counted := by
  obtain ⟨es, hes, _⟩ := h
  exact hes.counted

theorem contains_eq_false_iff :
    m.contains key addr = false ↔ m.remove key addr = .error (.invalidFree addr key) := by
  unfold contains remove
  cases m.find? key addr <;> simp

/-- The map has this capacity and records exactly these pairs. -/
structure Refines (capacity : Nat) (m : FreeMap) (records : Multiset (Word × Word)) : Prop where
  carries : ∃ rs : List (Word × Word), ↑rs = records ∧ m.Carries rs
  size : m.capacity = capacity

theorem refines_create (h : create host capacity = .ok m) : m.Refines capacity 0 := by
  refine ⟨⟨[], rfl, carries_create h⟩, ?_⟩
  obtain ⟨rfl, _⟩ := create_eq_ok h
  rfl

namespace Refines

variable {records : Multiset (Word × Word)}

theorem live (h : m.Refines capacity records) : m.live = records.card := by
  obtain ⟨⟨rs, rfl, hrs⟩, _⟩ := h
  rw [hrs.live, Multiset.coe_card]

theorem counted (h : m.Refines capacity records) : m.Counted := by
  obtain ⟨⟨rs, _, hrs⟩, _⟩ := h
  exact hrs.counted

theorem contains (h : m.Refines capacity records) (hr : (key, addr) ∈ records) :
    m.contains key addr = true := by
  obtain ⟨⟨rs, rfl, hrs⟩, _⟩ := h
  exact hrs.contains hr

theorem not_contains (h : m.Refines capacity records) (ha : addr ∉ records.map Prod.snd)
    (key : Word) : m.contains key addr = false := by
  obtain ⟨⟨rs, rfl, hrs⟩, _⟩ := h
  rw [← Bool.not_eq_true]
  intro hc
  obtain ⟨other, hother⟩ := hrs.exists_record hc
  exact ha (Multiset.mem_map.mpr ⟨_, hother, rfl⟩)

theorem insert {m' : FreeMap} (h : m.Refines capacity records)
    (hi : m.insert key addr = .ok m') : m'.Refines capacity ((key, addr) ::ₘ records) := by
  obtain ⟨⟨rs, rfl, hrs⟩, hsize⟩ := h
  exact ⟨⟨(key, addr) :: rs, rfl, hrs.insert hi⟩, (capacity_of_insert hi).trans hsize⟩

theorem remove (h : m.Refines capacity records) (hr : (key, addr) ∈ records) :
    ∃ m', m.remove key addr = .ok m' ∧ m'.Refines capacity (records.erase (key, addr)) := by
  obtain ⟨rest, rfl⟩ := Multiset.exists_cons_of_mem hr
  obtain ⟨⟨rs, hrest, hrs⟩, hsize⟩ := h
  obtain ⟨qs, rfl⟩ := Quot.exists_rep rest
  obtain ⟨m', hm', hqs⟩ := (hrs.perm (Multiset.coe_eq_coe.mp hrest)).remove
  refine ⟨m', hm', ⟨qs, ?_, hqs⟩, (capacity_of_remove hm').trans hsize⟩
  exact (Multiset.erase_cons_head _ _).symm

/-- A request is answered as the multiset of the records answers it, and what the map records
afterwards is what the multiset holds then. -/
theorem serves {t : Recorded} (h : t.map.Refines capacity t.records) {r : Request}
    (hr : t.Proper r) :
    (t.step r).map.Refines capacity (t.step r).records ∧
      Serves capacity t.records r (t.map.serve r).1 (t.step r).records := by
  cases r with
  | insert key addr =>
    by_cases ha : isMarker addr = true
    · have hserve : t.map.serve (.insert key addr) =
          (.error (.untrackableAddress addr), t.map) := by
        rw [serve, FreeMap.insert, if_pos ha, settle]
      rw [Recorded.step, hserve]
      exact ⟨h, .marker ha⟩
    rw [Bool.not_eq_true] at ha
    by_cases hfull : t.map.live = t.map.capacity
    · have hserve : t.map.serve (.insert key addr) = (.error (.exhausted .freeMap), t.map) := by
        rw [serve, (h.counted.insert_eq_exhausted_iff key ha).mpr hfull, settle]
      rw [Recorded.step, hserve]
      exact ⟨h, .full ha (by rw [← h.live, hfull, h.size])⟩
    · obtain ⟨m', hm'⟩ := h.counted.insert_of_room key ha hfull
      have hserve : t.map.serve (.insert key addr) = (.ok (), m') := by
        rw [serve, hm', settle]
      have hroom := h.counted.live_le
      rw [Recorded.step, hserve]
      exact ⟨h.insert hm', .inserted ha (by rw [← h.live, ← h.size]; omega)⟩
  | remove key addr =>
    rcases hr with hmem | hfree
    · obtain ⟨m', hm', hrest⟩ := h.remove hmem
      have hserve : t.map.serve (.remove key addr) = (.ok (), m') := by
        rw [serve, hm', settle]
      rw [Recorded.step, hserve]
      exact ⟨hrest, .removed hmem⟩
    · have hserve : t.map.serve (.remove key addr) = (.error (.invalidFree addr key), t.map) := by
        rw [serve, contains_eq_false_iff.mp (h.not_contains hfree key), settle]
      rw [Recorded.step, hserve]
      exact ⟨h, .missing hfree⟩

theorem after {t : Recorded} (h : t.map.Refines capacity t.records) {rs : List Request}
    (hr : Runs.Always Recorded.step Recorded.Proper t rs) :
    (t.after rs).map.Refines capacity (t.after rs).records :=
  Runs.foldl_of_always (I := fun t : Recorded => t.map.Refines capacity t.records)
    (fun _ _ ht hr => (ht.serves hr).1) h hr

end Refines

theorem settle_of_error {x : Except Violation FreeMap} {v : Violation}
    (h : (m.settle x).1 = .error v) : (m.settle x).2 = m := by
  cases x with
  | ok m' => cases h
  | error w => rfl

theorem Recorded.step_of_error {t : Recorded} {r : Request} {v : Violation}
    (h : (t.map.serve r).1 = .error v) : t.step r = t := by
  have hmap : (t.map.serve r).2 = t.map := by
    cases r with
    | insert key addr => exact settle_of_error h
    | remove key addr => exact settle_of_error h
  rw [Recorded.step, h, hmap]
  cases r <;> rfl

/-- Where removals are proper, the map answers every proper request as the multiset of its records
does. -/
theorem refines_bounded_multiset (hc : create host capacity = .ok m) {rs : List Request}
    (hr : Runs.Always Recorded.step Recorded.Proper { map := m } rs) :
    let t := Recorded.after { map := m } rs
    t.map.live = t.records.card ∧ t.map.capacity = capacity ∧
      (∀ r, t.Proper r → Serves capacity t.records r (t.map.serve r).1 (t.step r).records) ∧
      (∀ r v, (t.map.serve r).1 = .error v → t.step r = t) ∧
      (∀ key addr, (key, addr) ∈ t.records → isMarker addr = false ∧
        t.map.contains key addr = true ∧ ∃ m', t.map.remove key addr = .ok m') ∧
      ∀ addr, addr ∉ t.records.map Prod.snd → ∀ key, t.map.contains key addr = false ∧
        t.map.remove key addr = .error (.invalidFree addr key) := by
  have h := (refines_create hc).after hr
  refine ⟨h.live, h.size, fun r hr => (h.serves hr).2, fun r v => Recorded.step_of_error, ?_, ?_⟩
  · intro key addr hmem
    have hfound := h.contains hmem
    exact ⟨(contains_iff.mp hfound).1, hfound, remove_eq_ok_iff.mpr hfound⟩
  · intro addr hfree key
    have hmissing := h.not_contains hfree key
    exact ⟨hmissing, contains_eq_false_iff.mp hmissing⟩

/-- Two records of one address share it out over a tombstone, which a third record takes. -/
theorem refines_bounded_multiset_across_tombstone :
    ∃ m, create .standard 2 = .ok m ∧
      Runs.Always Recorded.step Recorded.Proper { map := m }
        [.insert 2 0x10, .insert 4 0x10, .remove 2 0x10, .remove 8 0x30, .insert 6 0x20] ∧
      let t := Recorded.after { map := m }
        [.insert 2 0x10, .insert 4 0x10, .remove 2 0x10, .remove 8 0x30, .insert 6 0x20]
      t.map.live = 2 ∧ t.map.contains 4 0x10 = true ∧
        ∀ key, t.map.remove key 0x30 = .error (.invalidFree 0x30 key) := by
  have hc : create .standard 2 = .ok { slots := { len := 2 } } := rfl
  have hr : Runs.Always Recorded.step Recorded.Proper { map := { slots := { len := 2 } } }
      [.insert 2 0x10, .insert 4 0x10, .remove 2 0x10, .remove 8 0x30, .insert 6 0x20] := by
    decide
  obtain ⟨hlive, _, _, _, hrecorded, hmissing⟩ := refines_bounded_multiset hc hr
  exact ⟨_, hc, hr, hlive.trans rfl, (hrecorded 4 0x10 (by decide)).2.1,
    fun key => (hmissing 0x30 (by decide) key).2⟩

end PointerGuard.FreeMap
