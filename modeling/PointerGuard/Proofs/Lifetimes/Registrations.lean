import PointerGuard.Proofs.Lifetimes.Occupancy

namespace PointerGuard

variable {host : Host}

namespace FreeMap

variable {m m' removed : FreeMap} {key addr : Word}

/-- The number of slots that hold this address. -/
def copies (m : FreeMap) (addr : Word) : Nat :=
  (m.taken.filter fun pos => m.slots.get pos = addr).card

theorem copies_blank (capacity : Nat) (addr : Word) :
    copies { slots := { len := capacity } } addr = 0 := by
  refine Finset.card_eq_zero.mpr (Finset.filter_eq_empty_iff.mpr fun pos hpos _ => ?_)
  have hmarker : isMarker emptySlot = false := (mem_taken.mp hpos).2
  cases hmarker

/-- The slots that hold an address, but for the slot at `pos`. -/
theorem filter_set_of_notMem {taken : Finset Nat} {pos : Nat} (hpos : pos ∉ taken) (w addr : Word) :
    taken.filter (fun p => (m.slots.set pos w).get p = addr)
      = taken.filter fun p => m.slots.get p = addr := by
  refine Finset.filter_congr fun p hp => ?_
  have hne : p ≠ pos := fun heq => hpos (heq ▸ hp)
  rw [Table.get_set_of_ne hne]

theorem copies_insert (h : m.insert key addr = .ok m') (other : Word) :
    m'.copies other = m.copies other + if addr = other then 1 else 0 := by
  obtain ⟨ha, pos, hreach, hm, rfl⟩ := insert_eq_ok h
  have hfree : pos ∉ m.taken := by
    rw [mem_taken, hm]
    simp
  have hrest := filter_set_of_notMem (m := m) hfree addr other
  unfold copies
  rw [taken_set_of_address hreach.lt ha, Finset.filter_insert, Table.get_set_self, hrest]
  by_cases ho : addr = other
  · rw [if_pos ho, if_pos ho]
    exact Finset.card_insert_of_notMem fun hp => hfree (Finset.mem_filter.mp hp).1
  · rw [if_neg ho, if_neg ho, Nat.add_zero]

theorem copies_remove (h : m.remove key addr = .ok m') (other : Word) :
    m'.copies other + (if addr = other then 1 else 0) = m.copies other := by
  obtain ⟨pos, hf, rfl⟩ := remove_eq_ok h
  obtain ⟨ha, hs, i, hi, hp, _⟩ := find?_eq_some hf
  have htaken : pos ∈ m.taken := by
    rw [mem_taken, hs]
    exact ⟨hp ▸ probe_lt (by omega) key i, ha⟩
  have hrest := filter_set_of_notMem (m := m) (Finset.notMem_erase pos m.taken) tombstone other
  unfold copies
  rw [taken_set_of_marker (by decide), hrest]
  by_cases ho : addr = other
  · have hcounted : pos ∈ m.taken.filter fun p => m.slots.get p = other :=
      Finset.mem_filter.mpr ⟨htaken, hs.trans ho⟩
    rw [if_pos ho, Finset.filter_erase, Finset.card_erase_add_one hcounted]
  · have hother : pos ∉ m.taken.filter fun p => m.slots.get p = other :=
      fun hm => ho (hs.symm.trans (Finset.mem_filter.mp hm).2)
    rw [if_neg ho, Finset.filter_erase, Finset.erase_eq_of_notMem hother, Nat.add_zero]

/-- A record that is replaced by one of another address. -/
theorem copies_exchange {other : Word} {new : Word} (hr : m.remove key addr = .ok removed)
    (hi : removed.insert other new = .ok m') (q : Word) :
    m'.copies q + (if addr = q then 1 else 0) = m.copies q + if new = q then 1 else 0 := by
  rw [copies_insert hi, ← copies_remove hr q]
  omega

end FreeMap

namespace Lifetimes

variable {l l' : Lifetimes} {r : Request} {a : Except Violation (Option Lease)} {m : FreeMap}

/-- The request, answered like this, registers the address. -/
def Request.registers (addr : Word) : Request → Except Violation (Option Lease) → Bool
  | .allocate ptr, .ok _ => ptr == addr
  | .relocate _ new _, .ok _ => new == addr
  | _, _ => false

/-- The request, answered like this, withdraws a record of the address. -/
def Request.withdraws (addr : Word) : Request → Except Violation (Option Lease) → Bool
  | .deallocate ptr _ _, .ok _ => ptr == addr
  | .relocate old _ _, .ok _ => old == addr
  | _, _ => false

/-- The registrations of an address in a run. -/
def registrations (l : Lifetimes) (addr : Word) (rs : List Request) : Nat :=
  Runs.tally step (fun l r => r.registers addr (l.serve r).1) l rs

/-- The withdrawals of an address in a run. -/
def withdrawals (l : Lifetimes) (addr : Word) (rs : List Request) : Nat :=
  Runs.tally step (fun l r => r.withdraws addr (l.serve r).1) l rs

/-- One request keeps the balance of records, registrations and withdrawals. A relocation that fails
puts the record back that it took. -/
theorem Change.copies (h : Change l r a l') (hm : l.freeMap = some m) (addr : Word) :
    ∃ m', l'.freeMap = some m' ∧
      m'.copies addr + (if r.withdraws addr a then 1 else 0)
        = m.copies addr + if r.registers addr a then 1 else 0 := by
  cases h with
  | refused r v => exact ⟨m, hm, by cases r <;> rfl⟩
  | granted _ _ hi =>
    rw [hm] at hi
    cases hi with
    | @some _ m' hi =>
      have hcount := FreeMap.copies_insert hi addr
      exact ⟨m', rfl, by simpa [Request.withdraws, Request.registers] using hcount⟩
  | turnedAway => exact ⟨m, hm, rfl⟩
  | released _ _ hr =>
    rw [hm] at hr
    cases hr with
    | @some _ m' hr =>
      have hcount := FreeMap.copies_remove hr addr
      exact ⟨m', rfl, by simpa [Request.withdraws, Request.registers] using hcount⟩
  | moved hr =>
    rw [hm] at hr
    cases hr with
    | @some _ m' hr =>
      obtain ⟨removed, hr, hi⟩ := hr
      have hcount := FreeMap.copies_exchange hr hi addr
      exact ⟨m', rfl, by simpa [Request.withdraws, Request.registers] using hcount⟩
  | restored hfm hr _ hb =>
    -- The record that goes back is the one that was taken, perhaps into another slot.
    cases hm.symm.trans hfm
    have hcount := FreeMap.copies_exchange hr hb addr
    exact ⟨_, rfl, Nat.add_right_cancel hcount⟩
  | shared => exact ⟨m, hm, rfl⟩
  | pushed => exact ⟨m, hm, rfl⟩
  | ignored => exact ⟨m, hm, rfl⟩
  | popped => exact ⟨m, hm, rfl⟩

/-- Over a run, what there is of an address at the end and what was withdrawn is what there was at
first and what was registered. -/
theorem copies_after (hm : l.freeMap = some m) (addr : Word) (rs : List Request) :
    ∃ m', (l.after rs).freeMap = some m' ∧
      m'.copies addr + l.withdrawals addr rs = m.copies addr + l.registrations addr rs := by
  induction rs generalizing l m with
  | nil => exact ⟨m, hm, rfl⟩
  | cons r rs ih =>
    obtain ⟨m₁, hm₁, hfirst⟩ := (change_serve l r).copies hm addr
    obtain ⟨m', hm', hrest⟩ := ih (l := l.step r) hm₁
    have hwithdrawn : l.withdrawals addr (r :: rs)
        = (if r.withdraws addr (l.serve r).1 then 1 else 0)
          + (l.step r).withdrawals addr rs := rfl
    have hregistered : l.registrations addr (r :: rs)
        = (if r.registers addr (l.serve r).1 then 1 else 0)
          + (l.step r).registrations addr rs := rfl
    refine ⟨m', hm', ?_⟩
    rw [hwithdrawn, hregistered]
    omega

theorem copies_create {lockEntries stackEntries freeMapEntries : Nat} {policy : StackLockPolicy}
    (hc : Lifetimes.create host lockEntries policy stackEntries (some freeMapEntries) = .ok l) :
    ∃ m, l.freeMap = some m ∧ ∀ addr, m.copies addr = 0 := by
  obtain ⟨_, _, _, _, _, hmap⟩ := Lifetimes.create_eq_ok hc
  generalize l.freeMap = map at hmap
  cases hmap with
  | some hm =>
    obtain ⟨rfl, _⟩ := FreeMap.create_eq_ok hm
    exact ⟨_, rfl, FreeMap.copies_blank _⟩

end Lifetimes

end PointerGuard
