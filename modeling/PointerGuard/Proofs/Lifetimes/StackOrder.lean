import PointerGuard.Proofs.Lifetimes.Revocation
import PointerGuard.Proofs.Lifetimes.StackLeases

namespace PointerGuard

variable {host : Host}

namespace LockStack

variable {s : LockStack} {key : Word} {lease : Lease} {rest : List Lease}

theorem length_leases (s : LockStack) : s.leases.length = s.top := by
  simp [leases]

theorem leases_eq_nil (hz : s.top = 0) : s.leases = [] := by
  simp [leases, hz]

/-- The newest lease is on the cell below the top. -/
theorem leases_eq_cons (h : s.leases = lease :: rest) :
    s.top ≠ 0 ∧ lease = s.leaseAt (s.top - 1) := by
  have hz : s.top ≠ 0 := by
    intro hz
    rw [leases_eq_nil hz] at h
    cases h
  rw [leases_eq_cons_takeBack hz] at h
  exact ⟨hz, (List.cons.inj h).1.symm⟩

theorem head?_leases_eq_some_iff :
    s.leases.head?.map Lease.key = some key ↔ s.top ≠ 0 ∧ s.cells.get (s.top - 1) = key := by
  by_cases hz : s.top = 0
  · simp [leases_eq_nil hz, hz]
  · simp [leases_eq_cons_takeBack hz, hz, leaseAt]

end LockStack

namespace Lifetimes

variable {l l' : Lifetimes} {r : Request} {a : Except Violation (Option Lease)} {live : List Lease}
  {s : LockStack} {key lock : Word} {lease : Lease}

/-- The request is one to the stack locks. -/
def Request.ofStack : Request → Prop
  | .stackAllocate => True
  | .stackDeallocate _ => True
  | _ => False

theorem serve_stackDeallocate_eq_ok_iff (hs : l.stack = .perCall s) :
    (l.serve (.stackDeallocate key)).1 = .ok none ↔
      s.top ≠ 0 ∧ s.cells.get (s.top - 1) = key := by
  rw [serve, stackDeallocate, hs]
  by_cases hz : s.top = 0
  · simp [LockStack.pop, hz]
  · by_cases hk : s.cells.get (s.top - 1) = key <;> simp [LockStack.pop, hz, hk]

theorem serve_stackAllocate_eq_error_iff (hs : l.stack = .perCall s) {v : Violation} :
    (l.serve .stackAllocate).1 = .error v ↔
      s.top = s.cells.len ∧ v = .exhausted .stackLockArena := by
  rw [serve, stackAllocate, hs]
  by_cases hf : s.top = s.cells.len
  · simp [LockStack.push, hf, eq_comm]
  · simp [LockStack.push, hf]

theorem step_of_shared (hs : l.stack = .shared) (hr : r.ofStack) : l.step r = l := by
  cases r with
  | stackAllocate => exact step_stackAllocate_of_ok (by rw [stackAllocate, hs])
  | stackDeallocate key => exact step_stackDeallocate_of_ok (by rw [stackDeallocate, hs])
  | _ => exact hr.elim

theorem step_of_stack_error {v : Violation} (hr : r.ofStack) (h : (l.serve r).1 = .error v) :
    l.step r = l := by
  have hc := h ▸ change_step l r
  generalize l.step r = l' at hc ⊢
  cases hc with
  | refused => rfl
  | turnedAway => exact hr.elim
  | restored => exact hr.elim

theorem Change.stackCells (hs : l.stack = .perCall s) (h : Change l r a l') :
    ∃ s', l'.stack = .perCall s' ∧ s'.cells.len = s.cells.len := by
  cases h with
  | shared hsh => cases hs.symm.trans hsh
  | ignored hsh => cases hs.symm.trans hsh
  | pushed hst _ =>
    cases hs.symm.trans hst
    exact ⟨_, rfl, rfl⟩
  | popped hst _ _ =>
    cases hs.symm.trans hst
    exact ⟨_, rfl, rfl⟩
  | _ => exact ⟨s, hs, rfl⟩

/-- The key of a lease that is issued is not zero. -/
theorem Change.key_ne_zero (hp : l.Placed) (hk : l.Keyed) (h : Change l r (.ok (some lease)) l') :
    lease.key ≠ 0 := by
  have hnext : l.nextKey ≠ 0 := by
    intro hz
    have hbelow := hk.below (cell?_of_global hp)
    rw [hz] at hbelow
    exact absurd hbelow (Nat.not_lt_zero _)
  cases h with
  | granted => exact hnext
  | shared => exact (by decide : globalKey ≠ 0)
  | pushed => exact hnext

theorem mem_noteStack (h : lease ∈ noteStack live r a) : lease ∈ live ∨ a = .ok (some lease) := by
  unfold noteStack at h
  split at h
  next granted =>
    rcases List.mem_cons.mp h with rfl | h
    · exact Or.inr rfl
    · exact Or.inl h
  next => exact Or.inl (List.mem_of_mem_eraseP h)
  next => exact Or.inl h

/-- A live stack lease passes its check. -/
theorem check_of_live (hp : l.Placed) (hacc : l.StackAccounted live) (hs : l.stack = .perCall s)
    (h : lease ∈ live) : l.check lease.key lease.lock = .ok () := by
  have hobs := (stack_observe_eq_some_iff hp hacc hs).mpr (Or.inl h)
  rw [hs] at hobs
  obtain ⟨i, hi, hkey⟩ := Option.map_eq_some_iff.mp hobs
  exact check_eq_ok_iff.mpr ((cell?_of_stack hp hs hi).trans (congrArg some hkey))

/-- The release of the newest lease clears its cell and no other. -/
theorem cell?_of_newest {rest : List Lease} (hp : l.Placed) (hs : l.stack = .perCall s)
    (h : s.leases = lease :: rest) :
    (l.step (.stackDeallocate lease.key)).cell? lease.lock = some 0 ∧
      ∀ other, other ≠ lease.lock →
        (l.step (.stackDeallocate lease.key)).cell? other = l.cell? other := by
  obtain ⟨hz, rfl⟩ := LockStack.leases_eq_cons h
  let released : Lifetimes := { l with stack := .perCall s.takeBack }
  have hstep : l.step (.stackDeallocate (s.leaseAt (s.top - 1)).key) = released :=
    step_stackDeallocate_of_ok
      (by simp [stackDeallocate, hs, LockStack.pop, LockStack.leaseAt, hz, released])
  have hp' : released.Placed := hp.takeBack rfl rfl hs rfl
  rw [hstep]
  refine ⟨cell?_of_takeBack hp rfl rfl hs rfl hz, fun other ho => ?_⟩
  exact (cell?_of_stackSet hp hp' rfl rfl hs rfl rfl rfl other).resolve_right fun h => ho h.1

/-- The checks that end with the release of the newest lease are those of this lease. -/
theorem check_ends_iff_newest {rest : List Lease} (hp : l.Placed) (hs : l.stack = .perCall s)
    (h : s.leases = lease :: rest) (hnewest : l.check lease.key lease.lock = .ok ())
    (key lock : Word) :
    l.check key lock = .ok () ∧ (l.step (.stackDeallocate lease.key)).check key lock ≠ .ok () ↔
      ⟨key, lock⟩ = lease ∧ key ≠ 0 := by
  obtain ⟨hclear, hothers⟩ := cell?_of_newest hp hs h
  rw [check_eq_ok_iff] at hnewest
  rw [check_eq_ok_iff, Ne, check_eq_ok_iff]
  constructor
  · rintro ⟨hpass, hfail⟩
    have hlock : lock = lease.lock := by
      by_contra hne
      exact hfail ((hothers lock hne).trans hpass)
    subst hlock
    cases hpass.symm.trans hnewest
    refine ⟨rfl, ?_⟩
    intro hz
    exact hfail (hz ▸ hclear)
  · rintro ⟨rfl, hz⟩
    refine ⟨hnewest, fun hpass => hz ?_⟩
    cases hpass.symm.trans hclear
    rfl

theorem perCall_after (hs : l.stack = .perCall s) (rs : List Request) :
    ∃ s', (l.after rs).stack = .perCall s' ∧ s'.cells.len = s.cells.len :=
  Runs.foldl_invariant
    (I := fun m : Lifetimes => ∃ s', m.stack = .perCall s' ∧ s'.cells.len = s.cells.len)
    (fun m r ⟨_, hs', hc⟩ =>
      have ⟨s', hs', hc'⟩ := (change_step m r).stackCells hs'
      ⟨s', hs', hc'.trans hc⟩) rs ⟨s, hs, rfl⟩

theorem placed_after (hp : l.Placed) (rs : List Request) : (l.after rs).Placed :=
  Runs.foldl_invariant (I := Placed) (fun m r h => (change_step m r).placed h) rs hp

/-- As long as the counter does not wrap, no live stack lease has key zero. -/
theorem stackLeases_key_ne_zero (hp : l.Placed) (hk : l.Keyed) {rs : List Request}
    (hn : l.nextKey.toNat + l.keysDrawn rs < 2 ^ 64) (hlive : ∀ lease ∈ live, lease.key ≠ 0) :
    ∀ lease ∈ l.stackLeases live rs, lease.key ≠ 0 := by
  induction rs generalizing l live with
  | nil => exact hlive
  | cons r rs ih =>
    obtain ⟨hp', hk', _, heq⟩ := step_keyed hp hk r rs hn
    rw [← heq] at hn
    refine ih hp' hk' hn fun lease hm => ?_
    rcases mem_noteStack hm with hm | hissued
    · exact hlive lease hm
    · have hc := hissued ▸ change_step l r
      exact hc.key_ne_zero hp hk

variable {lockEntries stackEntries : Nat} {policy : StackLockPolicy} {freeMapEntries : Option Nat}

theorem stackCells_create
    (hc : Lifetimes.create host lockEntries .perCall stackEntries freeMapEntries = .ok l) :
    ∃ s, l.stack = .perCall s ∧ s.cells.len = stackEntries := by
  obtain ⟨_, _, _, hpolicy, hstack, _⟩ := Lifetimes.create_eq_ok hc
  cases hs : l.stack with
  | shared =>
    rw [hs] at hpolicy
    cases hpolicy
  | perCall s =>
    refine ⟨s, rfl, ?_⟩
    rw [(LockStack.create_eq_ok (hstack s hs)).1]

/-- Stack leases are released newest first: each release clears the cell of the newest lease and
ends exactly its checks. -/
theorem stack_releases_newest
    (hc : Lifetimes.create host lockEntries policy stackEntries freeMapEntries = .ok l)
    (rs : List Request) :
    let m := l.after rs
    let live := l.stackLeases [] rs
    match policy with
    | .shared => ∀ r : Request, r.ofStack → m.step r = m
    | .perCall =>
      (∀ lease ∈ live, m.check lease.key lease.lock = .ok ()) ∧
      (∀ v, (m.serve .stackAllocate).1 = .error v ↔
        live.length = stackEntries ∧ v = .exhausted .stackLockArena) ∧
      (∀ key, (m.serve (.stackDeallocate key)).1 = .ok none ↔
        live.head?.map Lease.key = some key) ∧
      (∀ r : Request, r.ofStack → ∀ v, (m.serve r).1 = .error v → m.step r = m) ∧
      ∀ lease rest, live = lease :: rest →
        let m' := m.step (.stackDeallocate lease.key)
        m'.cell? lease.lock = some 0 ∧
        (∀ other, other ≠ lease.lock → m'.cell? other = m.cell? other) ∧
        (∀ key lock, m.check key lock = .ok () ∧ m'.check key lock ≠ .ok () ↔
          ⟨key, lock⟩ = lease ∧ key ≠ 0) ∧
        (l.keysDrawn rs < 2 ^ 64 - 2 → lease.key ≠ 0) := by
  intro m live
  have hplaced : m.Placed := placed_after (placed_create hc) rs
  have hacc : m.StackAccounted live := stackAccounted_after (.create hc) rs
  cases policy with
  | shared =>
    intro r hr
    have hpolicy : m.stack.policy = .shared :=
      (after_policy l rs).trans (Lifetimes.create_eq_ok hc).2.2.2.1
    cases hs : m.stack with
    | shared => exact step_of_shared hs hr
    | perCall s =>
      rw [hs] at hpolicy
      cases hpolicy
  | perCall =>
    obtain ⟨s₀, hs₀, hcap₀⟩ := stackCells_create hc
    obtain ⟨s, hs, hcap⟩ := perCall_after hs₀ rs
    have hleases : live = s.leases := by
      rw [StackAccounted, hs] at hacc
      exact hacc
    have hchecks : ∀ lease ∈ live, m.check lease.key lease.lock = .ok () :=
      fun lease hm => check_of_live hplaced hacc hs hm
    refine ⟨hchecks, fun v => ?_, fun key => ?_, fun r hr v h => step_of_stack_error hr h,
      fun lease rest hlive => ?_⟩
    -- the live leases are those of the stack, so room and the newest one are read off its cells
    · rw [serve_stackAllocate_eq_error_iff hs, hleases, LockStack.length_leases, hcap, hcap₀]
    · rw [serve_stackDeallocate_eq_ok_iff hs, hleases, LockStack.head?_leases_eq_some_iff]
    · have hcells : s.leases = lease :: rest := hleases ▸ hlive
      have hmem : lease ∈ live := hlive ▸ List.mem_cons_self ..
      obtain ⟨hclear, hothers⟩ := cell?_of_newest hplaced hs hcells
      refine ⟨hclear, hothers, check_ends_iff_newest hplaced hs hcells (hchecks lease hmem),
        fun hn => ?_⟩
      have hfirst := toNat_nextKey_create hc
      exact stackLeases_key_ne_zero (placed_create hc) (keyed_create hc) (by omega) (by simp)
        lease hmem

/-- Two stack leases with a heap lease between them; the older is not released first. -/
theorem stack_releases_newest_of_two :
    ∃ l, Lifetimes.create .standard 8 .perCall 2 (some 8) = .ok l ∧
      let m := l.after [.stackAllocate, .allocate 0x1000, .stackAllocate, .stackDeallocate 2]
      (m.serve .stackAllocate).1 = .error (.exhausted .stackLockArena) ∧
        (m.serve (.stackDeallocate 2)).1 ≠ .ok none ∧
        (m.serve (.stackDeallocate 4)).1 = .ok none ∧
        m.check 2 stackLocksAddr = .ok () ∧ m.check 4 (stackLocksAddr + 8) = .ok () ∧
        (m.step (.stackDeallocate 4)).check 4 (stackLocksAddr + 8) ≠ .ok () := by
  have hc : Lifetimes.create .standard 8 .perCall 2 (some 8) = .ok _ := rfl
  obtain ⟨hlive, hroom, hnewest, _, hrelease⟩ := stack_releases_newest hc
    [.stackAllocate, .allocate 0x1000, .stackAllocate, .stackDeallocate 2]
  obtain ⟨_, _, hends, _⟩ := hrelease _ _ rfl
  refine ⟨_, hc, (hroom _).mpr ⟨rfl, rfl⟩, fun h => ?_, (hnewest 4).mpr rfl,
    hlive ⟨2, stackLocksAddr⟩ (by decide), hlive ⟨4, stackLocksAddr + 8⟩ (by decide), ?_⟩
  · cases (hnewest 2).mp h
  · exact ((hends 4 (stackLocksAddr + 8)).mpr ⟨rfl, by decide⟩).2

end Lifetimes

end PointerGuard
