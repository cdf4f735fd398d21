import PointerGuard.Proofs.Lifetimes.Holdings
import PointerGuard.Proofs.Lifetimes.StackLeases

namespace PointerGuard.Lifetimes

variable {host : Host} {l : Lifetimes} {key lock : Word} {lease : Lease} {live : List Lease}

theorem cell?_of_stack_observe (hp : l.Placed) (h : l.stack.observe lock = some key) :
    l.cell? lock = some key := by
  cases hs : l.stack with
  | shared =>
    rw [hs] at h
    cases h
  | perCall s =>
    rw [hs] at h
    obtain ⟨i, hi, hkey⟩ := Option.map_eq_some_iff.mp h
    rw [cell?_of_stack hp hs hi, hkey]

/-- The lock cells are the global one, the heap cells and the stack cells. -/
theorem cell?_eq_some_iff (hp : l.Placed) : l.cell? lock = some key ↔
    ⟨key, lock⟩ = l.globalLease ∨ l.heap.observe lock = some key ∨
      l.stack.observe lock = some key := by
  constructor
  · intro h
    unfold cell? at h
    split at h
    next hg =>
      rw [hp.global] at h
      cases Option.some.inj h
      exact Or.inl (by rw [hg, globalLease])
    next =>
      cases ho : l.heap.observe lock with
      | none =>
        rw [ho] at h
        exact Or.inr (Or.inr h)
      | some w =>
        rw [ho] at h
        exact Or.inr (Or.inl h)
  · rintro (h | h | h)
    · cases h
      exact cell?_of_global hp
    · exact cell?_of_heap hp h
    · exact cell?_of_stack_observe hp h

/-- The leases that nobody has revoked: the global one, those of heap objects and those of calls. -/
def Watched.standing (w : Watched) (live : List Lease) : List Lease :=
  w.lifetimes.globalLease :: (w.leases ++ live)

theorem Watched.mem_standing {w : Watched} :
    lease ∈ w.standing live ↔
      lease = w.lifetimes.globalLease ∨ lease ∈ w.leases ∨ lease ∈ live := by
  rw [standing, List.mem_cons, List.mem_append]

theorem mem_live_of_stack_observe (hp : l.Placed) (hacc : l.StackAccounted live) (hz : key ≠ 0)
    (h : l.stack.observe lock = some key) : ⟨key, lock⟩ ∈ live := by
  cases hs : l.stack with
  | shared =>
    rw [hs] at h
    cases h
  | perCall s =>
    exact ((stack_observe_eq_some_iff hp hacc hs).mp h).resolve_right fun hfree => hz hfree.1

/-- A cell that does not hold zero belongs to a lease that stands. -/
theorem mem_standing_of_cell? {w : Watched} (hp : w.lifetimes.Placed)
    (hheap : w.lifetimes.Accounted w.held) (hstack : w.lifetimes.StackAccounted live)
    (hz : key ≠ 0) (h : w.lifetimes.cell? lock = some key) : ⟨key, lock⟩ ∈ w.standing live := by
  rw [Watched.mem_standing]
  rcases (cell?_eq_some_iff hp).mp h with hg | ho | ho
  · exact Or.inl hg
  · exact Or.inr (Or.inl (hheap key lock hz ho))
  · exact Or.inr (Or.inr (mem_live_of_stack_observe hp hstack hz ho))

theorem cell?_of_live (hp : l.Placed) (hacc : l.StackAccounted live)
    (h : lease = l.globalLease ∨ lease ∈ live) : l.cell? lease.lock = some lease.key := by
  have hglobal : l.cell? l.globalLease.lock = some l.globalLease.key := cell?_of_global hp
  rcases h with rfl | hm
  · exact hglobal
  · cases hs : l.stack with
    | shared =>
      rw [StackAccounted, hs] at hacc
      rwa [hacc lease hm]
    | perCall s =>
      exact cell?_of_stack_observe hp ((stack_observe_eq_some_iff hp hacc hs).mpr (Or.inl hm))

/-- The cell of every lease that stands holds its key, where releases with key zero were regular. -/
theorem Watched.Settled.cell?_of_standing {w : Watched} (h : w.Settled)
    (hstack : w.lifetimes.StackAccounted live) (hm : lease ∈ w.standing live) :
    w.lifetimes.cell? lease.lock = some lease.key := by
  rcases Watched.mem_standing.mp hm with hg | hheap | hlive
  · exact cell?_of_live h.placed hstack (Or.inl hg)
  · exact check_eq_ok_iff.mp (h.check hheap)
  · exact cell?_of_live h.placed hstack (Or.inr hlive)

variable {lockEntries stackEntries : Nat} {policy : StackLockPolicy} {freeMapEntries : Option Nat}

theorem watched_stackAccounted
    (hc : Lifetimes.create host lockEntries policy stackEntries freeMapEntries = .ok l)
    (rs : List Request) :
    (l.watched.after rs).lifetimes.StackAccounted (l.stackLeases [] rs) := by
  rw [Watched.after_lifetimes]
  exact stackAccounted_after (.create hc) rs

/-- Until a release with key zero takes a cell that no lease has, exactly the global lease and the
live ones pass and, with key zero, every lock cell that none of them has. -/
theorem check_passes_iff_standing_or_vacant
    (hc : Lifetimes.create host lockEntries policy stackEntries freeMapEntries = .ok l)
    (rs : List Request) :
    let w := l.watched.after rs
    let live := l.stackLeases [] rs
    (∀ lease, lease = l.globalLease ∨ lease ∈ live →
      w.lifetimes.check lease.key lease.lock = .ok ()) ∧
    (∀ key lock, w.lifetimes.check key lock = .ok () → key ≠ 0 →
      ⟨key, lock⟩ ∈ w.standing live) ∧
    (lockEntries ≤ linkEnd → Runs.Always Watched.step Watched.Regular l.watched rs →
      ∀ key lock, w.lifetimes.check key lock = .ok () ↔ ⟨key, lock⟩ ∈ w.standing live ∨
        key = 0 ∧ (w.lifetimes.cell? lock).isSome ∧
          lock ∉ (w.standing live).map Lease.lock) := by
  intro w live
  obtain ⟨hp, hheap⟩ : w.lifetimes.Placed ∧ w.lifetimes.Accounted w.held := watched_accounted hc rs
  have hstack : w.lifetimes.StackAccounted live := watched_stackAccounted hc rs
  have hglobal : l.globalLease = w.lifetimes.globalLease := by
    rw [globalLease, globalLease, Watched.after_lifetimes, global_after]
    rfl
  refine ⟨fun lease h => check_eq_ok_iff.mpr (cell?_of_live hp hstack (hglobal ▸ h)),
    fun key lock h hz => ?_, fun hsmall hr key lock => ?_⟩
  · exact mem_standing_of_cell? hp hheap hstack hz (check_eq_ok_iff.mp h)
  · have hw : w.Settled := (settled_create hsmall hc).after hr
    rw [check_eq_ok_iff]
    constructor
    · intro hcell
      by_cases hm : lock ∈ (w.standing live).map Lease.lock
      · obtain ⟨lease, hl, rfl⟩ := List.mem_map.mp hm
        cases (hw.cell?_of_standing hstack hl).symm.trans hcell
        exact Or.inl hl
      · refine Or.inr ⟨?_, by simp [hcell], hm⟩
        by_contra hz
        exact hm (List.mem_map_of_mem (mem_standing_of_cell? hp hheap hstack hz hcell))
    · rintro (hl | ⟨rfl, hs, hu⟩)
      · exact hw.cell?_of_standing hstack hl
      · obtain ⟨held, hcell⟩ := Option.isSome_iff_exists.mp hs
        by_cases hz : held = 0
        · rw [hcell, hz]
        · exact absurd (List.mem_map_of_mem (mem_standing_of_cell? hp hheap hstack hz hcell)) hu

/-- A cell changes hands between two heap objects while a call has a cell of its own. -/
theorem check_passes_iff_standing_after_reuse :
    ∃ l, Lifetimes.create .standard 8 .perCall 4 (some 8) = .ok l ∧ 8 ≤ linkEnd ∧
      Runs.Always Watched.step Watched.Regular l.watched
        [.allocate 0x1000, .stackAllocate, .deallocate 0x1000 2 heapLocksAddr, .allocate 0x2000] ∧
      let w := l.watched.after
        [.allocate 0x1000, .stackAllocate, .deallocate 0x1000 2 heapLocksAddr, .allocate 0x2000]
      w.lifetimes.check 2 heapLocksAddr ≠ .ok () ∧ w.lifetimes.check 4 heapLocksAddr = .ok () ∧
        w.lifetimes.check 3 stackLocksAddr = .ok () ∧ w.lifetimes.check 0 heapLocksAddr ≠ .ok () := by
  obtain ⟨l, hc, hf, hstanding⟩ : ∃ l, Lifetimes.create .standard 8 .perCall 4 (some 8) = .ok l ∧
      Runs.Always Watched.step Watched.Faithful l.watched
        [.allocate 0x1000, .stackAllocate, .deallocate 0x1000 2 heapLocksAddr, .allocate 0x2000] ∧
      (l.watched.after [.allocate 0x1000, .stackAllocate, .deallocate 0x1000 2 heapLocksAddr,
        .allocate 0x2000]).standing (l.stackLeases [] [.allocate 0x1000, .stackAllocate,
          .deallocate 0x1000 2 heapLocksAddr, .allocate 0x2000])
            = [⟨globalKey, globalLockAddr⟩, ⟨4, heapLocksAddr⟩, ⟨3, stackLocksAddr⟩] :=
    ⟨_, rfl, by decide, by decide⟩
  have hr := Runs.always_mono (fun _ _ => Watched.Faithful.regular) hf
  have hiff := (check_passes_iff_standing_or_vacant hc _).2.2 (by decide) hr
  rw [hstanding] at hiff
  refine ⟨l, hc, by decide, hr, ?_, ?_, ?_, ?_⟩
  · exact fun h => ((hiff _ _).mp h).elim (by decide) fun h => h.2.2 (by decide)
  · exact (hiff _ _).mpr (Or.inl (by decide))
  · exact (hiff _ _).mpr (Or.inl (by decide))
  · exact fun h => ((hiff _ _).mp h).elim (by decide) fun h => h.2.2 (by decide)

/-- The lease is forged: its cell was never given out. -/
theorem check_with_key_zero_passes :
    ∃ l, Lifetimes.create .standard 8 .perCall 4 (some 8) = .ok l ∧
      let w := l.watched.after [.allocate 0x1000, .stackAllocate]
      (⟨0, heapLocksAddr + 8⟩ : Lease) ∉
        w.standing (l.stackLeases [] [.allocate 0x1000, .stackAllocate]) ∧
      w.lifetimes.check 0 (heapLocksAddr + 8) = .ok () ∧
      w.lifetimes.check 0 (stackLocksAddr + 8) = .ok () :=
  ⟨_, rfl, by decide, rfl, rfl⟩

end PointerGuard.Lifetimes
