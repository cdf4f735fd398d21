import PointerGuard.Proofs.Lifetimes.Cells

namespace PointerGuard

variable {host : Host}

namespace LockStack

variable {s : LockStack} {key lock : Word}

/-- The lease on a cell. -/
def leaseAt (s : LockStack) (i : Nat) : Lease := ⟨s.cells.get i, s.extent.addrOf i⟩

/-- The leases on the cells below the top, newest first. -/
def leases (s : LockStack) : List Lease := ((List.range s.top).map s.leaseAt).reverse

theorem mem_leases : ⟨key, lock⟩ ∈ s.leases ↔
    ∃ i < s.top, s.cells.get i = key ∧ s.extent.addrOf i = lock := by
  simp only [leases, List.mem_reverse, List.mem_map, List.mem_range, leaseAt, Lease.mk.injEq]

theorem leases_of_top_succ {top : Nat} (h : s.top = top + 1) :
    s.leases = s.leaseAt top :: ((List.range top).map s.leaseAt).reverse := by
  simp [leases, h, List.range_succ]

/-- A write at `top` or above leaves the leases below as they are. -/
theorem map_leaseAt_set (s : LockStack) {top i : Nat} (w : Word) (top' : Nat) (h : top ≤ i) :
    (List.range top).map (leaseAt { s with cells := s.cells.set i w, top := top' })
      = (List.range top).map s.leaseAt := by
  refine List.map_congr_left fun j hj => ?_
  have hlt := List.mem_range.mp hj
  have hcell : (s.cells.set i w).get j = s.cells.get j := Table.get_set_of_ne (by omega) _ _
  exact congrArg₂ Lease.mk hcell rfl

theorem leases_give (s : LockStack) (key : Word) :
    (s.give key).leases = ⟨key, s.extent.addrOf s.top⟩ :: s.leases := by
  have hnewest : (s.give key).leaseAt s.top = ⟨key, s.extent.addrOf s.top⟩ :=
    congrArg₂ Lease.mk (Table.get_set_self ..) rfl
  rw [leases_of_top_succ (show (s.give key).top = s.top + 1 from rfl), hnewest, give,
    map_leaseAt_set s key _ (Nat.le_refl _), leases]

theorem leases_eq_cons_takeBack (hz : s.top ≠ 0) :
    s.leases = s.leaseAt (s.top - 1) :: s.takeBack.leases := by
  rw [leases_of_top_succ (show s.top = s.top - 1 + 1 by omega), leases, takeBack,
    map_leaseAt_set s 0 _ (Nat.le_refl _)]

/-- A stack cell holds the key of the lease that has it, and zero if none has it. -/
theorem observe_eq_some_iff (hx : s.extent.Fits) (htop : s.top ≤ s.cells.len)
    (hvacant : ∀ i, s.top ≤ i → s.cells.get i = 0) :
    s.observe lock = some key ↔ ⟨key, lock⟩ ∈ s.leases ∨
      key = 0 ∧ (s.extent.indexOf lock).isSome ∧ lock ∉ s.leases.map Lease.lock := by
  have hcell {i : Nat} (hi : i < s.top) : s.extent.indexOf (s.extent.addrOf i) = some i :=
    Extent.indexOf_addrOf hx (Nat.lt_of_lt_of_le hi htop)
  rw [observe]
  constructor
  · intro h
    obtain ⟨i, hi, rfl⟩ := Option.map_eq_some_iff.mp h
    obtain ⟨_, rfl⟩ := (Extent.indexOf_eq_some_iff hx).mp hi
    by_cases hlt : i < s.top
    · exact Or.inl (mem_leases.mpr ⟨i, hlt, rfl, rfl⟩)
    · refine Or.inr ⟨hvacant i (Nat.le_of_not_lt hlt), by simp [hi], fun hm => ?_⟩
      obtain ⟨⟨k, _⟩, hl, rfl⟩ := List.mem_map.mp hm
      obtain ⟨j, hj, _, hsame⟩ := mem_leases.mp hl
      rw [← hsame, hcell hj] at hi
      cases hi
      exact hlt hj
  · rintro (hl | ⟨rfl, hs, hu⟩)
    · obtain ⟨i, hlt, rfl, rfl⟩ := mem_leases.mp hl
      rw [hcell hlt, Option.map_some]
    · obtain ⟨i, hi⟩ := Option.isSome_iff_exists.mp hs
      obtain ⟨_, rfl⟩ := (Extent.indexOf_eq_some_iff hx).mp hi
      rw [hi, Option.map_some]
      by_cases hlt : i < s.top
      · have hm : s.leaseAt i ∈ s.leases := mem_leases.mpr ⟨i, hlt, rfl, rfl⟩
        exact absurd (List.mem_map_of_mem (f := Lease.lock) hm) hu
      · rw [hvacant i (Nat.le_of_not_lt hlt)]

end LockStack

namespace Lifetimes

variable {l l' : Lifetimes} {r : Request} {a : Except Violation (Option Lease)} {live : List Lease}

/-- The lease that is never revoked. -/
def globalLease (l : Lifetimes) : Lease := ⟨globalKey, l.global.addr⟩

/-- The live stack leases after the answer to a request, newest first. A release ends the newest
lease with its key. -/
def noteStack (live : List Lease) : Request → Except Violation (Option Lease) → List Lease
  | .stackAllocate, .ok (some lease) => lease :: live
  | .stackDeallocate key, .ok _ => live.eraseP (·.key = key)
  | _, _ => live

/-- The live stack leases after a run that began with `live`. -/
def stackLeases (l : Lifetimes) (live : List Lease) : List Request → List Lease
  | [] => live
  | r :: rs => (l.step r).stackLeases (noteStack live r (l.serve r).1) rs

/-- The account of stack leases fits the stack. Under the shared policy it can only have the global
lease in it. -/
def StackAccounted (l : Lifetimes) (live : List Lease) : Prop :=
  match l.stack with
  | .shared => ∀ lease ∈ live, lease = l.globalLease
  | .perCall s => live = s.leases

theorem StackAccounted.create {lockEntries stackEntries : Nat} {policy : StackLockPolicy}
    {freeMapEntries : Option Nat}
    (h : Lifetimes.create host lockEntries policy stackEntries freeMapEntries = .ok l) :
    l.StackAccounted [] := by
  obtain ⟨_, _, _, _, hstack, _⟩ := Lifetimes.create_eq_ok h
  unfold StackAccounted
  split
  next => simp
  next s hs =>
    rw [(LockStack.create_eq_ok (hstack s hs)).1]
    rfl

theorem Change.stackAccounted (h : Change l r a l') (hacc : l.StackAccounted live) :
    l'.StackAccounted (noteStack live r a) := by
  cases h with
  | refused r v => cases r <;> exact hacc
  | granted => exact hacc
  | turnedAway => exact hacc
  | released => exact hacc
  | moved => exact hacc
  | restored => exact hacc
  | shared hs =>
    rw [StackAccounted, hs] at hacc ⊢
    rintro lease hm
    exact (List.mem_cons.mp hm).elim id (hacc lease)
  | ignored hs =>
    rw [StackAccounted, hs] at hacc ⊢
    exact fun lease hm => hacc lease (List.mem_of_mem_eraseP hm)
  | @pushed s hs _ =>
    rw [StackAccounted, hs] at hacc
    show _ :: live = _
    rw [hacc, LockStack.leases_give]
  | @popped key s hs hz hk =>
    rw [StackAccounted, hs] at hacc
    have hnewest : (s.leaseAt (s.top - 1)).key = key := hk
    show live.eraseP (·.key = key) = _
    rw [hacc, LockStack.leases_eq_cons_takeBack hz, List.eraseP_cons_of_pos (by simp [hnewest])]

theorem stackAccounted_after (hacc : l.StackAccounted live) (rs : List Request) :
    (l.after rs).StackAccounted (l.stackLeases live rs) := by
  induction rs generalizing l live with
  | nil => exact hacc
  | cons r rs ih => exact ih ((change_serve l r).stackAccounted hacc)

/-- Stack leases pass, and a stack cell that none has holds zero. -/
theorem stack_observe_eq_some_iff {s : LockStack} {key lock : Word} (hp : l.Placed)
    (hacc : l.StackAccounted live) (hs : l.stack = .perCall s) :
    l.stack.observe lock = some key ↔ ⟨key, lock⟩ ∈ live ∨
      key = 0 ∧ (s.extent.indexOf lock).isSome ∧ lock ∉ live.map Lease.lock := by
  rw [StackAccounted, hs] at hacc
  rw [hs, hacc]
  exact LockStack.observe_eq_some_iff (hp.stack_fits hs) (hp.stack_top s hs) (hp.vacant s hs)

end Lifetimes

end PointerGuard
