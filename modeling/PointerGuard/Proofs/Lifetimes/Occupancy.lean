import PointerGuard.Proofs.FreeMap.Occupancy
import PointerGuard.Proofs.Lifetimes.Releases

namespace PointerGuard

variable {host : Host}

namespace LockArena

variable {a : LockArena} {held : List Lease} {free : List Nat}

/-- The leases have the cells `taken`, one each, `free` is the free list, and with the cells that
were never given out these are all cells, each of them once. -/
structure Split (a : LockArena) (held : List Lease) (taken free : List Nat) : Prop where
  given : List.Forall₂ (fun lease i => a.indexOf lease.lock = some i ∧ a.cells.get i = lease.key)
    held taken
  chain : Chain a.links a.freeHead free
  idle : ∀ i, i ∈ free ∨ a.bump ≤ i → a.cells.get i = 0
  whole : (taken ++ free ++ List.range' a.bump (a.cells.len - a.bump)).Perm
    (List.range a.cells.len)

theorem exists_cells
    (h : ∀ lease ∈ held, ∃ i, a.indexOf lease.lock = some i ∧ a.cells.get i = lease.key) :
    ∃ taken, List.Forall₂
      (fun lease i => a.indexOf lease.lock = some i ∧ a.cells.get i = lease.key) held taken ∧
      held.map (fun lease => a.indexOf lease.lock) = taken.map some := by
  induction held with
  | nil => exact ⟨[], .nil, rfl⟩
  | cons lease held ih =>
    obtain ⟨i, hi, hkey⟩ := h lease (List.mem_cons_self ..)
    obtain ⟨taken, hcells, hmap⟩ := ih fun lease hl => h lease (List.mem_cons_of_mem _ hl)
    exact ⟨i :: taken, .cons ⟨hi, hkey⟩ hcells, by rw [List.map_cons, hi, hmap, List.map_cons]⟩

namespace Divided

theorem split (h : a.Divided held free []) : ∃ taken, a.Split held taken free := by
  have heach : ∀ lease ∈ held, ∃ i, a.indexOf lease.lock = some i ∧ a.cells.get i = lease.key := by
    intro lease hl
    obtain ⟨i, _, hi, hkey, _⟩ := h.exists_cell hl
    exact ⟨i, hi, hkey⟩
  obtain ⟨taken, hcells, hmap⟩ := exists_cells heach
  refine ⟨taken, hcells, h.chain, h.idle, ?_⟩
  have hshares := h.shares
  rw [List.nil_append, hmap, ← List.map_append,
    List.map_perm_map_iff (Option.some_injective _)] at hshares
  have hrange : List.range a.bump ++ List.range' a.bump (a.cells.len - a.bump)
      = List.range a.cells.len := by
    have happ := List.range'_append_1 (s := 0) (m := a.bump) (n := a.cells.len - a.bump)
    rwa [Nat.zero_add, Nat.add_sub_cancel' h.room, ← List.range_eq_range',
      ← List.range_eq_range'] at happ
  rw [← hrange]
  exact (List.perm_append_comm.trans hshares).append_right _

theorem length_add (h : a.Divided held free []) : free.length + held.length = a.bump := by
  simpa using h.shares.length_eq

/-- An arena gives out no cell exactly if leases have all of them. -/
theorem acquire_eq_error_iff (h : a.Divided held free []) {v : Violation} :
    a.acquire = .error v ↔ held.length = a.cells.len ∧ v = .exhausted .lockArena := by
  have hlen := h.length_add
  have hroom := h.room
  unfold LockArena.acquire
  split
  next hf =>
    obtain ⟨is, rfl, _⟩ := h.chain.of_ne hf
    rw [List.length_cons] at hlen
    simp only [reduceCtorEq, false_iff, not_and]
    omega
  next hf =>
    obtain rfl := h.chain.eq_nil (not_not.mp hf)
    rw [List.length_nil, Nat.zero_add] at hlen
    split
    next hb => simp [hlen, hb, eq_comm]
    next hb => simp [hlen, hb]

end Divided

end LockArena

/-- A map of this capacity, with as many records as `count` says. -/
structure FreeMap.Stocked (m : FreeMap) (capacity count : Nat) : Prop where
  counted : m.Counted
  size : m.capacity = capacity
  live : m.live = count

/-- Why an address is not recorded next to `count` records in `capacity` slots, if it is not. -/
def FreeMap.refusal (capacity count : Nat) (addr : Word) : Option Violation :=
  if addr = tombstone then some (.untrackableAddress addr)
  else if count = capacity then some (.exhausted .freeMap)
  else none

namespace FreeMap.Stocked

variable {m m' : FreeMap} {capacity count : Nat} {key addr : Word}

theorem insert (h : m.Stocked capacity count) (hi : m.insert key addr = .ok m') :
    m'.Stocked capacity (count + 1) := by
  obtain ⟨hc, hlive⟩ := h.counted.insert hi
  exact ⟨hc, (capacity_of_insert hi).trans h.size, by rw [hlive, h.live]⟩

theorem remove (h : m.Stocked capacity (count + 1)) (hr : m.remove key addr = .ok m') :
    m'.Stocked capacity count := by
  obtain ⟨hc, hlive⟩ := h.counted.remove hr
  refine ⟨hc, (capacity_of_remove hr).trans h.size, ?_⟩
  rw [h.live] at hlive
  exact Nat.succ.inj hlive

/-- A record that is replaced leaves the count as it is. -/
theorem exchange {removed : FreeMap} {other new : Word} (h : m.Stocked capacity count)
    (hr : m.remove key addr = .ok removed) (hi : removed.insert other new = .ok m') :
    m'.Stocked capacity count := by
  obtain ⟨hc, hlive⟩ := h.counted.remove hr
  have hstocked : removed.Stocked capacity removed.live :=
    ⟨hc, (capacity_of_remove hr).trans h.size, rfl⟩
  rw [← h.live, ← hlive]
  exact hstocked.insert hi

theorem insert_eq_error_iff (h : m.Stocked capacity count) (key : Word) (ha : addr ≠ 0)
    {v : Violation} :
    m.insert key addr = .error v ↔ refusal capacity count addr = some v := by
  unfold refusal
  split
  next ht =>
    rw [FreeMap.insert, if_pos (by simp [isMarker, ht])]
    simp
  next ht =>
    have hn : isMarker addr = false := isMarker_eq_false_iff.mpr ⟨ha, ht⟩
    split
    next hfull =>
      rw [(h.counted.insert_eq_exhausted_iff key hn).mpr (by rw [h.live, h.size, hfull])]
      simp
    next hroom =>
      obtain ⟨m', hm'⟩ := h.counted.insert_of_room key hn (by rwa [h.live, h.size])
      simp [hm']

end FreeMap.Stocked

namespace Lifetimes

variable {l l' : Lifetimes} {lockEntries stackEntries : Nat} {policy : StackLockPolicy}
  {freeMapEntries : Option Nat} {r : Request} {a : Except Violation (Option Lease)}

theorem rel_trans {α β γ : Type} {R : α → β → Prop} {S : β → γ → Prop} {T : α → γ → Prop}
    {o : Option α} {p : Option β} {q : Option γ} (h : Option.Rel R o p) (h' : Option.Rel S p q)
    (ht : ∀ x y z, R x y → S y z → T x z) : Option.Rel T o q := by
  cases h with
  | some hr =>
    cases h' with
    | some hs => exact .some (ht _ _ _ hr hs)
  | none =>
    cases h' with
    | none => exact .none

theorem Change.cells_len (h : Change l r a l') : l'.heap.cells.len = l.heap.cells.len := by
  cases h with
  | granted _ ha _ => rw [LockArena.assign, Table.len_set, (LockArena.acquire_keeps ha).2]
  | turnedAway _ ha _ _ => rw [LockArena.release, Table.len_set, (LockArena.acquire_keeps ha).2]
  | _ => rfl

theorem length_move (old new key : Word) (held : List Holding) :
    (move old new key held).length = held.length := by
  simpa using congrArg List.length (leases_move old new key held)

/-- The free map has a record for every live allocation, as far as its count goes. -/
theorem Change.stocked {w : Watched} (hn : w.leases.Nodup)
    (hs : Option.Rel (fun n m => m.Stocked n w.held.length) freeMapEntries w.lifetimes.freeMap)
    (h : Change w.lifetimes r a l')
    (hlive : ∀ ptr key lock, r = .deallocate ptr key lock → a = .ok none →
      ⟨key, lock⟩ ∈ w.leases) :
    Option.Rel (fun n m => m.Stocked n (note w.held r a).length) freeMapEntries l'.freeMap := by
  cases h with
  | refused r v => rwa [note_error]
  | granted _ _ hi => exact rel_trans hs hi fun n m m' hm hi => hm.insert hi
  | turnedAway _ _ _ _ => exact hs
  | @released ptr key lock _ _ _ _ hr =>
    obtain ⟨h, hh, hlease⟩ := List.mem_map.mp (hlive ptr key lock rfl rfl)
    have hlen := (perm_cons_filter_lease hn hh).length_eq
    rw [hlease, List.length_cons] at hlen
    rw [hlen] at hs
    exact rel_trans hs hr fun n m m' hm hr => hm.remove hr
  | moved hr =>
    rw [note, length_move]
    refine rel_trans hs hr ?_
    rintro n m m' hm ⟨removed, hr, hi⟩
    exact hm.exchange hr hi
  | restored hfm hr _ hb =>
    rw [hfm] at hs
    cases hs with
    | some hm => exact .some (hm.exchange hr hb)
  | shared _ => exact hs
  | pushed _ _ => exact hs
  | ignored _ => exact hs
  | popped _ _ => exact hs

/-- What requests keep that never release with key zero. -/
structure Watched.Stocked (w : Watched) (lockEntries : Nat) (freeMapEntries : Option Nat) : Prop
    extends w.Settled where
  size : w.lifetimes.heap.cells.len = lockEntries
  stocked : Option.Rel (fun n m => m.Stocked n w.held.length) freeMapEntries w.lifetimes.freeMap

theorem stocked_create (hsmall : lockEntries ≤ linkEnd)
    (hc : Lifetimes.create host lockEntries policy stackEntries freeMapEntries = .ok l) :
    l.watched.Stocked lockEntries freeMapEntries := by
  obtain ⟨_, _, hheap, _, _, hmap⟩ := Lifetimes.create_eq_ok hc
  obtain ⟨hh, _⟩ := LockArena.create_eq_ok hheap
  refine ⟨settled_create hsmall hc, ?_, ?_⟩
  · show l.heap.cells.len = lockEntries
    rw [hh]
  · show Option.Rel _ _ l.freeMap
    cases hm : l.freeMap <;> rw [hm] at hmap <;> cases hmap
    next => exact .none
    next m n hn =>
      obtain ⟨rfl, _⟩ := FreeMap.create_eq_ok hn
      exact .some ⟨FreeMap.counted_blank n, rfl, rfl⟩

/-- Why an allocation at `ptr` fails while `live` allocations are live, if it fails. -/
def refusal (lockEntries : Nat) (freeMapEntries : Option Nat) (live : Nat) (ptr : Word) :
    Option Violation :=
  if live = lockEntries then some (.exhausted .lockArena)
  else freeMapEntries.bind fun n => FreeMap.refusal n live ptr

namespace Watched.Stocked

variable {w : Watched}

theorem step {r : Request} (h : w.Stocked lockEntries freeMapEntries) (hr : w.Regular r) :
    (w.step r).Stocked lockEntries freeMapEntries := by
  obtain ⟨free, hd⟩ := h.divided
  have hn : w.leases.Nodup := List.Nodup.of_map _ hd.locks_nodup
  exact ⟨h.toSettled.step hr, (w.change r).cells_len.trans h.size,
    (w.change r).stocked hn h.stocked (h.lease_of_release hr)⟩

theorem after {rs : List Request} (h : w.Stocked lockEntries freeMapEntries)
    (hr : Runs.Always Watched.step Regular w rs) :
    (w.after rs).Stocked lockEntries freeMapEntries :=
  Runs.foldl_of_always (I := (Watched.Stocked · lockEntries freeMapEntries))
    (fun _ _ hw hreg => hw.step hreg) h hr

theorem tracked (h : w.Stocked lockEntries freeMapEntries) :
    w.lifetimes.tracked = freeMapEntries.map fun _ => w.held.length := by
  have hs := h.stocked
  rw [Lifetimes.tracked]
  generalize w.lifetimes.freeMap = map at hs
  cases hs with
  | some hm => rw [Option.map_some, Option.map_some, hm.live]
  | none => rfl

theorem allocate_eq_error_iff (h : w.Stocked lockEntries freeMapEntries) {ptr : Word}
    (hp : ptr ≠ 0) {v : Violation} : (w.lifetimes.allocate ptr).1 = .error v ↔
      refusal lockEntries freeMapEntries w.held.length ptr = some v := by
  obtain ⟨free, hd⟩ := h.divided
  have hacq (u : Violation) := hd.acquire_eq_error_iff (v := u)
  have hlen : w.leases.length = w.held.length := List.length_map _
  rw [hlen, h.size] at hacq
  unfold allocate refusal
  rw [if_neg hp]
  cases ha : w.lifetimes.heap.acquire with
  | error u =>
    obtain ⟨hfull, rfl⟩ := (hacq u).mp ha
    simp [hfull]
  | ok taken =>
    have hroom : w.held.length ≠ lockEntries := fun hfull => by
      cases ha.symm.trans ((hacq _).mpr ⟨hfull, rfl⟩)
    have hs := h.stocked
    rw [if_neg hroom]
    generalize w.lifetimes.freeMap = map at hs
    cases hs with
    | none => simp
    | some hm =>
      rw [Option.bind_some, ← hm.insert_eq_error_iff w.lifetimes.nextKey hp]
      dsimp only
      split
      next u hi => simp [hi]
      next m' hi => simp [hi]

end Watched.Stocked

/-- The cells of the arena are split among the live leases, the free list and the cells that were
never given out, and an allocation fails only for want of a cell or a record. -/
theorem cells_split_among_leases (hsmall : lockEntries ≤ linkEnd)
    (hc : Lifetimes.create host lockEntries policy stackEntries freeMapEntries = .ok l)
    {rs : List Request} (hz : ∀ ptr lock, .deallocate ptr 0 lock ∉ rs) :
    let w := l.watched.after rs
    w.lifetimes.heap.cells.len = lockEntries ∧
      (∃ taken free, w.lifetimes.heap.Split w.leases taken free) ∧
      w.lifetimes.tracked = freeMapEntries.map (fun _ => w.held.length) ∧
      ∀ ptr, ptr ≠ 0 → ∀ v, (w.lifetimes.allocate ptr).1 = .error v ↔
        refusal lockEntries freeMapEntries w.held.length ptr = some v := by
  have hr : Runs.Always Watched.step Watched.Regular l.watched rs := by
    refine Runs.always_of_mem fun r hr w ptr lock he _ => ?_
    exact absurd (he ▸ hr) (hz ptr lock)
  have h := (stocked_create hsmall hc).after hr
  obtain ⟨free, hd⟩ := h.divided
  obtain ⟨taken, hsplit⟩ := hd.split
  exact ⟨h.size, ⟨taken, free, hsplit⟩, h.tracked, fun ptr hp v => h.allocate_eq_error_iff hp⟩

/-- The map refuses the third request, whose cell goes back; two more leases fill the arena. -/
theorem cells_split_among_leases_when_full :
    ∃ l, Lifetimes.create .standard 2 .shared 4 (some 3) = .ok l ∧ 2 ≤ linkEnd ∧
      (∀ ptr lock, Request.deallocate ptr 0 lock ∉ [.allocate 0x1000,
        .deallocate 0x1000 2 heapLocksAddr, .allocate tombstone, .allocate 0x2000,
        .allocate 0x3000]) ∧ (0x4000 : Word) ≠ 0 ∧
      let w := l.watched.after [.allocate 0x1000, .deallocate 0x1000 2 heapLocksAddr,
        .allocate tombstone, .allocate 0x2000, .allocate 0x3000]
      w.lifetimes.tracked = some 2 ∧
        (w.lifetimes.allocate 0x4000).1 = .error (.exhausted .lockArena) := by
  have hc : Lifetimes.create .standard 2 .shared 4 (some 3) = .ok _ := rfl
  have hz : ∀ ptr lock, Request.deallocate ptr 0 lock ∉ [.allocate 0x1000,
      .deallocate 0x1000 2 heapLocksAddr, .allocate tombstone, .allocate 0x2000,
      .allocate 0x3000] := by
    simp
  obtain ⟨_, _, htracked, hrefusal⟩ := cells_split_among_leases (by decide) hc hz
  exact ⟨_, hc, by decide, hz, by decide, htracked.trans rfl, (hrefusal _ (by decide) _).mpr rfl⟩

end Lifetimes

end PointerGuard
