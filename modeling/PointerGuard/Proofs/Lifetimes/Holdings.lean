import PointerGuard.Proofs.Lifetimes.Cells

namespace PointerGuard.Lifetimes

variable {host : Host}

/-- A live allocation: its current address and its lease. -/
structure Holding where
  addr : Word
  lease : Lease
deriving DecidableEq, Repr

/-- The newest holding of `key` at `old` has moved to `new`. -/
def move (old new key : Word) : List Holding → List Holding
  | [] => []
  | h :: hs =>
    if h.addr = old ∧ h.lease.key = key then ⟨new, h.lease⟩ :: hs
    else h :: move old new key hs

/-- The live allocations after the answer to a request. -/
def note (held : List Holding) : Request → Except Violation (Option Lease) → List Holding
  | .allocate ptr, .ok (some lease) => ⟨ptr, lease⟩ :: held
  | .deallocate _ key lock, .ok _ => held.filter (·.lease ≠ ⟨key, lock⟩)
  | .relocate old new key, .ok _ => move old new key held
  | _, _ => held

/-- Lifetimes, and the account of them. -/
structure Watched where
  lifetimes : Lifetimes
  held : List Holding

def watched (l : Lifetimes) : Watched := ⟨l, []⟩

namespace Watched

def leases (w : Watched) : List Lease := w.held.map Holding.lease

def step (w : Watched) (r : Request) : Watched :=
  ⟨w.lifetimes.step r, note w.held r (w.lifetimes.serve r).1⟩

def after (w : Watched) (rs : List Request) : Watched := rs.foldl step w

theorem after_lifetimes (w : Watched) (rs : List Request) :
    (w.after rs).lifetimes = w.lifetimes.after rs := by
  induction rs generalizing w with
  | nil => rfl
  | cons r rs ih => exact ih (w.step r)

/-- A release with key zero succeeds for a live lease only. -/
def Regular (w : Watched) (r : Request) : Prop :=
  ∀ ptr lock, r = .deallocate ptr 0 lock → (w.lifetimes.serve r).1 = .ok none →
    ⟨0, lock⟩ ∈ w.leases

/-- A release or relocation names a live allocation's own address, key and lock. -/
def Faithful (w : Watched) : Request → Prop
  | .deallocate ptr key lock => ⟨ptr, ⟨key, lock⟩⟩ ∈ w.held
  | .relocate old _ key => ∃ h ∈ w.held, h.addr = old ∧ h.lease.key = key
  | _ => True

instance (w : Watched) : DecidablePred w.Faithful
  | .allocate _ => .isTrue trivial
  | .deallocate ptr key lock => inferInstanceAs (Decidable (⟨ptr, ⟨key, lock⟩⟩ ∈ w.held))
  | .relocate old _ key =>
    inferInstanceAs (Decidable (∃ h ∈ w.held, h.addr = old ∧ h.lease.key = key))
  | .stackAllocate => .isTrue trivial
  | .stackDeallocate _ => .isTrue trivial

theorem Faithful.regular {w : Watched} {r : Request} (h : w.Faithful r) : w.Regular r := by
  rintro ptr lock rfl _
  exact List.mem_map_of_mem (f := Holding.lease) h

end Watched

theorem leases_move (old new key : Word) (held : List Holding) :
    (move old new key held).map Holding.lease = held.map Holding.lease := by
  induction held with
  | nil => rfl
  | cons h hs ih =>
    unfold move
    split
    next => rfl
    next => rw [List.map_cons, List.map_cons, ih]

/-- A relocation changes the address in one record. -/
theorem move_perm {old key : Word} {held : List Holding}
    (h : ∃ h ∈ held, h.addr = old ∧ h.lease.key = key) (new : Word) :
    ∃ lease rest, lease.key = key ∧ held.Perm (⟨old, lease⟩ :: rest) ∧
      (move old new key held).Perm (⟨new, lease⟩ :: rest) := by
  induction held with
  | nil => simp at h
  | cons x xs ih =>
    unfold move
    by_cases hx : x.addr = old ∧ x.lease.key = key
    · obtain ⟨rfl, hkey⟩ := hx
      exact ⟨x.lease, xs, hkey, .refl _, by simp [hkey]⟩
    · obtain ⟨y, hy, hy'⟩ := h
      have hm : y ∈ xs := (List.mem_cons.mp hy).resolve_left fun heq => hx (heq ▸ hy')
      obtain ⟨lease, rest, hkey, hp, hp'⟩ := ih ⟨y, hm, hy'⟩
      refine ⟨lease, x :: rest, hkey, (hp.cons x).trans (.swap ..), ?_⟩
      rw [if_neg hx]
      exact (hp'.cons x).trans (.swap ..)

theorem note_error (held : List Holding) (r : Request) (v : Violation) :
    note held r (.error v) = held := by
  cases r <;> rfl

variable {l l' : Lifetimes} {r : Request} {a : Except Violation (Option Lease)}
  {held : List Holding}

/-- What a heap cell holds, other than zero, is the key of a live lease on this cell. -/
def Accounted (l : Lifetimes) (held : List Holding) : Prop :=
  ∀ key lock, key ≠ 0 → l.heap.observe lock = some key → ⟨key, lock⟩ ∈ held.map Holding.lease

theorem Accounted.create {lockEntries stackEntries : Nat} {policy : StackLockPolicy}
    {freeMapEntries : Option Nat}
    (h : Lifetimes.create host lockEntries policy stackEntries freeMapEntries = .ok l) :
    l.Accounted [] := by
  obtain ⟨_, _, hheap, _⟩ := Lifetimes.create_eq_ok h
  obtain ⟨hh, _⟩ := LockArena.create_eq_ok hheap
  intro key lock hz ho
  obtain ⟨i, _, hk⟩ := Option.map_eq_some_iff.mp ho
  rw [hh, Table.get_empty] at hk
  exact absurd hk.symm hz

theorem Accounted.of_set {key lock : Word} (h : l.Accounted held) (hp : l.Placed) (i : Nat)
    (w : Word) (ho : l'.heap.observe lock = some key) (hz : key ≠ 0)
    (hb : l'.heap.base = l.heap.base) (hc : l'.heap.cells = l.heap.cells.set i w) :
    lock = l.heap.addrOf i ∧ key = w ∨
      l.heap.indexOf lock ≠ some i ∧ ⟨key, lock⟩ ∈ held.map Holding.lease := by
  rw [LockArena.observe_of_set hb hc] at ho
  split at ho
  next hi =>
    obtain ⟨_, rfl⟩ := (Extent.indexOf_eq_some_iff hp.heap_fits).mp hi
    exact Or.inl ⟨rfl, (Option.some.inj ho).symm⟩
  next hi => exact Or.inr ⟨hi, h key lock hz ho⟩

theorem Change.accounted (hp : l.Placed) (hacc : l.Accounted held) (h : Change l r a l') :
    l'.Accounted (note held r a) := by
  cases h with
  | refused r v => rwa [note_error]
  | @granted _ i heap _ _ ha _ =>
    obtain ⟨hb, hc⟩ := LockArena.acquire_keeps ha
    intro key lock hz ho
    have hcells : (heap.assign i l.nextKey).cells = l.heap.cells.set i l.nextKey := by
      rw [LockArena.assign, hc]
    rcases hacc.of_set hp i l.nextKey ho hz hb hcells with ⟨rfl, rfl⟩ | ⟨_, hm⟩
    · rw [← LockArena.acquire_addrOf ha]
      exact List.mem_cons_self ..
    · exact List.mem_cons_of_mem _ hm
  | @turnedAway _ i _ _ _ _ ha _ _ =>
    obtain ⟨hb, hc⟩ := LockArena.acquire_keeps ha
    intro key lock hz ho
    rcases hacc.of_set hp i 0 ho hz hb (by rw [LockArena.release, hc]) with ⟨_, rfl⟩ | ⟨_, hm⟩
    · exact absurd rfl hz
    · exact hm
  | @released _ _ _ i _ hi _ _ =>
    intro key lock hz ho
    rcases hacc.of_set hp i 0 ho hz rfl rfl with ⟨_, rfl⟩ | ⟨hne, hm⟩
    · exact absurd rfl hz
    · obtain ⟨h, hh, hlease⟩ := List.mem_map.mp hm
      refine List.mem_map.mpr ⟨h, List.mem_filter.mpr ⟨hh, decide_eq_true fun heq => ?_⟩, hlease⟩
      rw [heq] at hlease
      cases hlease
      exact hne hi
  | moved _ =>
    intro key lock hz ho
    rw [note, leases_move]
    exact hacc key lock hz ho
  | restored _ _ _ _ => exact hacc
  | shared _ => exact hacc
  | pushed _ _ => exact hacc
  | ignored _ => exact hacc
  | popped _ _ => exact hacc

/-- A release with a key other than zero is for a live lease, after any requests. -/
theorem Change.lease_of_deallocate {ptr key lock : Word} {o : Option Lease}
    (hacc : l.Accounted held) (h : Change l (.deallocate ptr key lock) (.ok o) l')
    (hz : key ≠ 0) : ⟨key, lock⟩ ∈ held.map Holding.lease := by
  cases h with
  | released hi hc _ => exact hacc key lock hz (Option.map_eq_some_iff.mpr ⟨_, hi, hc⟩)

theorem Change.answer_of_deallocate {ptr key lock : Word} {o : Option Lease}
    (h : Change l (.deallocate ptr key lock) (.ok o) l') : o = none := by
  cases h with
  | released => rfl

theorem Change.divided {free : List Nat} (hd : l.heap.Divided (held.map Holding.lease) free [])
    (h : Change l r a l')
    (hlive : ∀ ptr key lock, r = .deallocate ptr key lock → a = .ok none →
      ⟨key, lock⟩ ∈ held.map Holding.lease) :
    ∃ free', l'.heap.Divided ((note held r a).map Holding.lease) free' [] := by
  cases h with
  | refused r v => exact ⟨free, by rwa [note_error]⟩
  | granted _ ha _ =>
    obtain ⟨free', hd'⟩ := hd.acquire ha
    exact ⟨free', hd'.assign _⟩
  | turnedAway _ ha _ _ =>
    obtain ⟨free', hd'⟩ := hd.acquire ha
    exact ⟨_, hd'.release⟩
  | @released ptr key lock _ _ hi _ _ =>
    have hw := (hd.withdraw (hlive ptr key lock rfl rfl) hi).release
    rw [List.filter_map] at hw
    exact ⟨_, hw⟩
  | moved _ =>
    refine ⟨free, ?_⟩
    rwa [note, leases_move]
  | restored _ _ _ _ => exact ⟨free, hd⟩
  | shared _ => exact ⟨free, hd⟩
  | pushed _ _ => exact ⟨free, hd⟩
  | ignored _ => exact ⟨free, hd⟩
  | popped _ _ _ => exact ⟨free, hd⟩

variable {lockEntries stackEntries : Nat} {policy : StackLockPolicy} {freeMapEntries : Option Nat}

theorem Watched.change (w : Watched) (r : Request) :
    Change w.lifetimes r (w.lifetimes.serve r).1 (w.step r).lifetimes :=
  change_serve w.lifetimes r

theorem watched_accounted
    (hc : Lifetimes.create host lockEntries policy stackEntries freeMapEntries = .ok l)
    (rs : List Request) : (l.watched.after rs).lifetimes.Placed ∧
      (l.watched.after rs).lifetimes.Accounted (l.watched.after rs).held :=
  Runs.foldl_invariant (I := fun w : Watched => w.lifetimes.Placed ∧ w.lifetimes.Accounted w.held)
    (fun w r h => ⟨(w.change r).placed h.1, (w.change r).accounted h.1 h.2⟩) rs
    ⟨placed_create hc, .create hc⟩

/-- What regular requests keep. -/
structure Watched.Settled (w : Watched) : Prop where
  placed : w.lifetimes.Placed
  accounted : w.lifetimes.Accounted w.held
  divided : ∃ free, w.lifetimes.heap.Divided w.leases free []

theorem settled_create (hsmall : lockEntries ≤ linkEnd)
    (hc : Lifetimes.create host lockEntries policy stackEntries freeMapEntries = .ok l) :
    l.watched.Settled := by
  have hp := placed_create hc
  have hfits := hp.heap_fits
  refine ⟨hp, .create hc, [], ?_⟩
  obtain ⟨_, _, hheap, _⟩ := Lifetimes.create_eq_ok hc
  obtain ⟨hh, _⟩ := LockArena.create_eq_ok hheap
  show l.heap.Divided [] [] []
  rw [hh] at hfits ⊢
  exact .create hfits hsmall

namespace Watched.Settled

variable {w : Watched}

theorem lease_of_release {r : Request} (h : w.Settled) (hr : w.Regular r) (ptr key lock : Word)
    (he : r = .deallocate ptr key lock) (hok : (w.lifetimes.serve r).1 = .ok none) :
    ⟨key, lock⟩ ∈ w.leases := by
  subst he
  by_cases hz : key = 0
  · subst hz
    exact hr ptr lock rfl hok
  · exact (hok ▸ w.change (.deallocate ptr key lock)).lease_of_deallocate h.accounted hz

theorem step {r : Request} (h : w.Settled) (hr : w.Regular r) : (w.step r).Settled := by
  obtain ⟨free, hd⟩ := h.divided
  exact ⟨(w.change r).placed h.placed, (w.change r).accounted h.placed h.accounted,
    (w.change r).divided hd (h.lease_of_release hr)⟩

theorem after {rs : List Request} (h : w.Settled) (hr : Runs.Always Watched.step Regular w rs) :
    (w.after rs).Settled :=
  Runs.foldl_of_always (fun _ _ hw hreg => step hw hreg) h hr

/-- A live lease passes its check. -/
theorem check {key lock : Word} (h : w.Settled) (hm : ⟨key, lock⟩ ∈ w.leases) :
    w.lifetimes.check key lock = .ok () := by
  obtain ⟨free, hd⟩ := h.divided
  exact check_eq_ok_iff.mpr (cell?_of_heap h.placed (hd.live _ hm))

theorem lock_ne_zero {key lock : Word} (h : w.Settled) (hm : ⟨key, lock⟩ ∈ w.leases) :
    lock ≠ 0 := by
  rintro rfl
  obtain ⟨free, hd⟩ := h.divided
  obtain ⟨i, _, hi, _⟩ := hd.exists_cell hm
  have hbelow : (0 : Word).toNat < w.lifetimes.heap.extent.base.toNat :=
    UInt64.pos_iff_ne_zero.mpr h.placed.heap_base_ne_zero
  rw [LockArena.indexOf, Extent.indexOf_eq_none_of_lt hbelow] at hi
  cases hi

end Watched.Settled

end PointerGuard.Lifetimes
