import PointerGuard.Proofs.Lifetimes.Filling
import PointerGuard.Proofs.Lifetimes.Room

namespace PointerGuard

variable {host : Host}

namespace LockArena

variable {a b : LockArena} {held : List Lease} {free cells : List Nat} {i : Nat}

theorem extent_of_acquire (h : a.acquire = .ok (i, b)) : b.extent = a.extent := by
  obtain ⟨hbase, hcells⟩ := acquire_keeps h
  rw [extent, extent, hbase, hcells]

/-- The arena gives out these cells, one after the other: the free list first, and then the cells
that were never given out. -/
structure Queued (a : LockArena) (cells : List Nat) : Prop where
  order : ∃ free, Chain a.links a.freeHead free ∧
    free ++ List.range' a.bump (a.cells.len - a.bump) = cells
  room : a.bump ≤ a.cells.len
  distinct : cells.Nodup
  numbered : ∀ i ∈ cells, i < linkEnd

theorem Divided.queued (h : a.Divided held free []) :
    a.Queued (free ++ List.range' a.bump (a.cells.len - a.bump)) := by
  obtain ⟨taken, hsplit⟩ := h.split
  have hwhole := hsplit.whole
  rw [List.append_assoc] at hwhole
  refine ⟨⟨free, h.chain, rfl⟩, h.room, ?_, fun i hi => ?_⟩
  · have hnodup := hwhole.nodup_iff.mpr List.nodup_range
    exact (List.nodup_append.mp hnodup).2.1
  · have hm := hwhole.mem_iff.mp (List.mem_append_right taken hi)
    have hlt := List.mem_range.mp hm
    exact hlt.trans_le h.small

namespace Queued

theorem acquire_nil (h : a.Queued []) : a.acquire = .error (.exhausted .lockArena) := by
  obtain ⟨free, hchain, hcells⟩ := h.order
  obtain ⟨rfl, hrest⟩ := List.append_eq_nil_iff.mp hcells
  have hend : a.freeHead = linkEnd := by
    by_contra hne
    obtain ⟨js, hjs, _⟩ := hchain.of_ne hne
    cases hjs
  have hfull : a.bump = a.cells.len := by
    have hroom := h.room
    have hnone := List.range'_eq_nil_iff.mp hrest
    omega
  rw [LockArena.acquire, if_neg (not_not.mpr hend), if_pos hfull]

theorem acquire_cons (h : a.Queued (i :: cells)) :
    ∃ b, a.acquire = .ok (i, b) ∧ b.Queued cells := by
  obtain ⟨free, hchain, hcells⟩ := h.order
  have hroom := h.room
  have hdistinct := (List.nodup_cons.mp h.distinct).2
  have hnumbered : ∀ j ∈ cells, j < linkEnd :=
    fun j hj => h.numbered j (List.mem_cons_of_mem i hj)
  by_cases hend : a.freeHead = linkEnd
  · obtain rfl := hchain.eq_nil hend
    obtain ⟨hi, hpos, hrest⟩ := List.range'_eq_cons_iff.mp hcells
    have hne : a.bump ≠ a.cells.len := by omega
    refine ⟨{ a with bump := a.bump + 1 }, ?_, ⟨[], hchain, ?_⟩, ?_, hdistinct, hnumbered⟩
    · rw [LockArena.acquire, if_neg (not_not.mpr hend), if_neg hne, hi]
    · rw [hrest, hi, List.nil_append, Nat.sub_sub]
    · simp only
      omega
  · obtain ⟨js, rfl, htail⟩ := hchain.of_ne hend
    obtain ⟨hi, hrest⟩ := List.cons_eq_cons.mp hcells
    refine ⟨{ a with freeHead := a.links.get a.freeHead }, ?_, ⟨js, htail, hrest⟩, hroom, hdistinct,
      hnumbered⟩
    rw [LockArena.acquire, if_pos hend, hi]

theorem assign (h : a.Queued cells) (i : Nat) (key : Word) : (a.assign i key).Queued cells :=
  ⟨h.order, h.room, h.distinct, h.numbered⟩

/-- A cell that is given back is given out next. -/
theorem release (h : a.Queued cells) (hi : i ∉ cells) (hlt : i < linkEnd) :
    (a.release i).Queued (i :: cells) := by
  obtain ⟨free, hchain, rfl⟩ := h.order
  have hnew : i ∉ free := fun hm => hi (List.mem_append_left _ hm)
  refine ⟨⟨i :: free, hchain.release hnew hlt, rfl⟩, h.room, List.nodup_cons.mpr ⟨hi, h.distinct⟩,
    fun j hj => ?_⟩
  rcases List.mem_cons.mp hj with rfl | hj
  · exact hlt
  · exact h.numbered j hj

/-- A cell that is taken and given back leaves the order as it was. -/
theorem acquire_release (h : a.Queued cells) (ha : a.acquire = .ok (i, b)) :
    (b.release i).Queued cells := by
  cases cells with
  | nil => cases ha.symm.trans h.acquire_nil
  | cons j rest =>
    obtain ⟨c, hc, hrest⟩ := h.acquire_cons
    cases ha.symm.trans hc
    exact hrest.release (List.nodup_cons.mp h.distinct).1 (h.numbered i (List.mem_cons_self ..))

end Queued

end LockArena

/-- The maps have equally many slots and equally many records. -/
def FreeMap.Level (m m' : FreeMap) : Prop :=
  ∃ capacity count, m.Stocked capacity count ∧ m'.Stocked capacity count

/-- Whether a map takes an address does not depend on the key. -/
theorem FreeMap.Level.insert {m m' : FreeMap} {addr : Word} (h : m.Level m') (ha : addr ≠ 0)
    (key key' : Word) :
    (∃ v, m.insert key addr = .error v ∧ m'.insert key' addr = .error v) ∨
      ∃ p p', m.insert key addr = .ok p ∧ m'.insert key' addr = .ok p' ∧ p.Level p' := by
  obtain ⟨capacity, count, hm, hm'⟩ := h
  cases hi : m.insert key addr with
  | error v =>
    have hrefusal := (hm.insert_eq_error_iff key ha).mp hi
    exact Or.inl ⟨v, rfl, (hm'.insert_eq_error_iff key' ha).mpr hrefusal⟩
  | ok p =>
    cases hi' : m'.insert key' addr with
    | error v =>
      have hrefusal := (hm'.insert_eq_error_iff key' ha).mp hi'
      cases hi.symm.trans ((hm.insert_eq_error_iff key ha).mpr hrefusal)
    | ok p' => exact Or.inr ⟨p, p', rfl, rfl, capacity, count + 1, hm.insert hi, hm'.insert hi'⟩

/-- The stack locks are at the same place, and equally many of them are taken. -/
inductive StackLocks.Level : StackLocks → StackLocks → Prop
  | shared : Level .shared .shared
  | perCall {s s' : LockStack} : s.extent = s'.extent → s.top = s'.top →
      Level (.perCall s) (.perCall s')

theorem StackLocks.Level.refl (s : StackLocks) : s.Level s := by
  cases s with
  | shared => exact .shared
  | perCall s => exact .perCall rfl rfl

namespace Lifetimes

variable {l m : Lifetimes} {r : Request} {v : Violation}

/-- The two issue leases alike, but for the keys. -/
structure Alike (l m : Lifetimes) : Prop where
  global : l.global = m.global
  extent : l.heap.extent = m.heap.extent
  cells : ∃ cells, l.heap.Queued cells ∧ m.heap.Queued cells
  stack : l.stack.Level m.stack
  map : Option.Rel FreeMap.Level l.freeMap m.freeMap

/-- The request asks for a lease. -/
def Request.issues : Request → Bool
  | .allocate _ => true
  | .stackAllocate => true
  | _ => false

/-- What a run of requests is answered, with the keys left out: the lock of every lease that is
issued, and why a request is refused. -/
def handedOut (l : Lifetimes) : List Request → List (Except Violation (Option Word))
  | [] => []
  | r :: rs => (l.serve r).1.map (Option.map Lease.lock) :: (l.step r).handedOut rs

theorem serve_allocate (l : Lifetimes) (ptr : Word) :
    l.serve (.allocate ptr) = ((l.allocate ptr).1.map some, (l.allocate ptr).2) := by
  rw [serve]
  cases l.allocate ptr with
  | mk a l' => cases a <;> rfl

namespace Alike

theorem allocate (h : Alike l m) (ptr : Word) :
    (l.allocate ptr).1.map Lease.lock = (m.allocate ptr).1.map Lease.lock ∧
      Alike (l.allocate ptr).2 (m.allocate ptr).2 := by
  obtain ⟨key, global, heap, stack, map⟩ := l
  obtain ⟨key', global', heap', stack', map'⟩ := m
  obtain ⟨hglobal, hextent, ⟨cells, hq, hq'⟩, hstack, hmap⟩ := h
  simp only at hglobal hextent hq hq' hstack hmap
  by_cases hz : ptr = 0
  · simp only [Lifetimes.allocate, if_pos hz]
    exact ⟨trivial, hglobal, hextent, ⟨cells, hq, hq'⟩, hstack, hmap⟩
  cases cells with
  | nil =>
    simp only [Lifetimes.allocate, if_neg hz, hq.acquire_nil, hq'.acquire_nil]
    exact ⟨trivial, hglobal, hextent, ⟨[], hq, hq'⟩, hstack, hmap⟩
  | cons i rest =>
    obtain ⟨taken, ha, hrest⟩ := hq.acquire_cons
    obtain ⟨taken', ha', hrest'⟩ := hq'.acquire_cons
    have hsame : taken.extent = taken'.extent := by
      rw [LockArena.extent_of_acquire ha, LockArena.extent_of_acquire ha', hextent]
    have hlock : taken.addrOf i = taken'.addrOf i := congrArg (Extent.addrOf · i) hsame
    simp only [Lifetimes.allocate, if_neg hz, ha, ha']
    cases hmap with
    | none =>
      exact ⟨congrArg Except.ok hlock, hglobal, hsame,
        ⟨rest, hrest.assign i key, hrest'.assign i key'⟩, hstack, .none⟩
    | some hlevel =>
      rcases hlevel.insert hz key key' with ⟨v, hi, hi'⟩ | ⟨p, p', hi, hi', hlevel'⟩
      · simp only [hi, hi']
        exact ⟨trivial, hglobal, hsame,
          ⟨i :: rest, hq.acquire_release ha, hq'.acquire_release ha'⟩, hstack, .some hlevel⟩
      · simp only [hi, hi']
        exact ⟨congrArg Except.ok hlock, hglobal, hsame,
          ⟨rest, hrest.assign i key, hrest'.assign i key'⟩, hstack, .some hlevel'⟩

theorem serve_stackAllocate (h : Alike l m) :
    (l.serve .stackAllocate).1.map (Option.map Lease.lock)
        = (m.serve .stackAllocate).1.map (Option.map Lease.lock) ∧
      Alike (l.step .stackAllocate) (m.step .stackAllocate) := by
  obtain ⟨key, global, heap, stack, map⟩ := l
  obtain ⟨key', global', heap', stack', map'⟩ := m
  obtain ⟨hglobal, hextent, hcells, hstack, hmap⟩ := h
  simp only at hglobal hextent hcells hstack hmap
  cases hstack with
  | shared =>
    cases hglobal
    exact ⟨rfl, rfl, hextent, hcells, .shared, hmap⟩
  | @perCall s s' hplace htop =>
    have hlen : s.cells.len = s'.cells.len := congrArg Extent.len hplace
    simp only [step, serve, stackAllocate, LockStack.push]
    by_cases hfull : s.top = s.cells.len
    · have hfull' : s'.top = s'.cells.len := by omega
      simp only [if_pos hfull, if_pos hfull']
      exact ⟨trivial, hglobal, hextent, hcells, .perCall hplace htop, hmap⟩
    · have hfull' : ¬s'.top = s'.cells.len := by omega
      simp only [if_neg hfull, if_neg hfull']
      refine ⟨?_, hglobal, hextent, hcells, .perCall hplace (congrArg (· + 1) htop), hmap⟩
      rw [hplace, htop]
      rfl

theorem serve (h : Alike l m) (hr : r.issues) :
    (l.serve r).1.map (Option.map Lease.lock) = (m.serve r).1.map (Option.map Lease.lock) ∧
      Alike (l.step r) (m.step r) := by
  cases r with
  | allocate ptr =>
    obtain ⟨hlock, hnext⟩ := h.allocate ptr
    rw [step_allocate, step_allocate, serve_allocate, serve_allocate]
    have hkeyless (a : Except Violation Lease) :
        (a.map some).map (Option.map Lease.lock) = (a.map Lease.lock).map some := by
      cases a <;> rfl
    exact ⟨by rw [hkeyless, hkeyless, hlock], hnext⟩
  | stackAllocate => exact h.serve_stackAllocate
  | _ => cases hr

theorem handedOut (h : Alike l m) {qs : List Request} (hqs : ∀ q ∈ qs, q.issues) :
    l.handedOut qs = m.handedOut qs := by
  induction qs generalizing l m with
  | nil => rfl
  | cons q qs ih =>
    obtain ⟨hanswer, hnext⟩ := h.serve (hqs q (List.mem_cons_self ..))
    have hrest := ih hnext fun q hq => hqs q (List.mem_cons_of_mem _ hq)
    rw [Lifetimes.handedOut, Lifetimes.handedOut, hanswer, hrest]

end Alike

variable {lockEntries stackEntries : Nat} {policy : StackLockPolicy} {freeMapEntries : Option Nat}
  {arena : Extent} {capacity : Nat} {ptr : Word}

theorem Watched.Stocked.alike {w : Watched} (h : w.Stocked lockEntries freeMapEntries) :
    Alike w.lifetimes w.lifetimes := by
  obtain ⟨free, hd⟩ := h.divided
  refine ⟨rfl, rfl, ⟨_, hd.queued, hd.queued⟩, .refl _, ?_⟩
  have hstocked := h.stocked
  generalize w.lifetimes.freeMap = map at hstocked ⊢
  cases hstocked with
  | none => exact .none
  | some hm => exact .some ⟨_, _, hm, hm⟩

/-- A refused request leaves lifetimes as they were, or it is an allocation for which the free map
had no room, and whose cell went back. -/
theorem Alike.of_refused (h : Alike l l) (hr : ∀ old new key, r ≠ .relocate old new key)
    (hv : (l.serve r).1 = .error v) :
    Alike (l.step r) l ∧ (l.step r).freeMap = l.freeMap ∧ (l.step r).stack = l.stack ∧
      (l.step r = l ∨ (∃ ptr, r = .allocate ptr) ∧ (l.step r).nextKey = l.nextKey + 1) := by
  have hc : Change l r (l.serve r).1 (l.step r) := change_serve l r
  rw [hv] at hc
  generalize l.step r = l' at hc ⊢
  cases hc with
  | refused => exact ⟨h, rfl, rfl, Or.inl rfl⟩
  | @turnedAway ptr i heap _ _ _ ha _ _ =>
    obtain ⟨hglobal, _, ⟨cells, hq, _⟩, hstack, hmap⟩ := h
    have hextent : heap.extent = l.heap.extent := LockArena.extent_of_acquire ha
    exact ⟨⟨hglobal, hextent, ⟨cells, hq.acquire_release ha, hq⟩, hstack, hmap⟩, rfl, rfl,
      Or.inr ⟨⟨ptr, rfl⟩, rfl⟩⟩
  | restored => exact absurd rfl (hr _ _ _)

theorem Watched.Stocked.cell?_of_refused {w : Watched} (h : w.Stocked lockEntries freeMapEntries)
    (hwell : w.lifetimes.WellFormed) (hr : ∀ old new key, r ≠ .relocate old new key)
    (hv : (w.lifetimes.serve r).1 = .error v) (lock : Word) :
    (w.lifetimes.step r).cell? lock = w.lifetimes.cell? lock := by
  rcases (h.alike.of_refused hr hv).2.2.2 with hsame | ⟨⟨ptr, rfl⟩, _⟩
  · rw [hsame]
  · rw [serve_allocate] at hv
    have hv' : (w.lifetimes.allocate ptr).1 = .error v := by
      cases ha : (w.lifetimes.allocate ptr).1 with
      | ok lease =>
        rw [ha] at hv
        cases hv
      | error u =>
        rw [ha] at hv
        cases hv
        rfl
    rw [step_allocate]
    exact h.toSettled.cell?_of_refused hwell hv' lock

theorem serve_allocate_of_exhausted (hp : ptr ≠ 0) (hhead : l.heap.freeHead = linkEnd)
    (hbump : l.heap.bump = l.heap.cells.len) :
    (l.serve (.allocate ptr)).1 = .error (.exhausted .lockArena) := by
  rw [serve_allocate, allocate, if_neg hp, LockArena.acquire, if_neg (not_not.mpr hhead),
    if_pos hbump]
  rfl

/-- The last of 2^32 cells has the number that ends the free list: an allocation that the map turns
away loses it. -/
theorem Filled.loses_last_cell (h : l.Filled arena capacity linkEnd)
    (hcell : arena.len = linkEnd + 1) (hslot : linkEnd < capacity) (hp : isMarker ptr = false) :
    (l.serve (.allocate tombstone)).1 = .error (.untrackableAddress tombstone) ∧
      l.handedOut [.allocate ptr] = [.ok (some (arena.addrOf linkEnd))] ∧
      (l.step (.allocate tombstone)).handedOut [.allocate ptr]
        = [.error (.exhausted .lockArena)] := by
  have hlast : linkEnd < arena.len := by omega
  obtain ⟨hgranted, _⟩ := h.allocate hlast hslot hp
  obtain ⟨hturned, hheap, _⟩ := h.turnedAway hlast
  have hlen : l.heap.cells.len = linkEnd + 1 := (congrArg Extent.len h.extent).trans hcell
  have hexhausted : ((l.step (.allocate tombstone)).serve (.allocate ptr)).1
      = .error (.exhausted .lockArena) := by
    refine serve_allocate_of_exhausted (FreeMap.isMarker_eq_false_iff.mp hp).1 ?_ ?_
    · rw [hheap]
      rfl
    · rw [hheap]
      exact hlen.symm
  refine ⟨hturned, ?_, ?_⟩
  · rw [handedOut, hgranted]
    rfl
  · rw [handedOut, hexhausted]
    rfl

/-- A request to allocate or to release that is refused cannot be noticed afterwards. -/
theorem refused_request_leaves_no_trace (hsmall : lockEntries ≤ linkEnd)
    (hc : Lifetimes.create host lockEntries policy stackEntries freeMapEntries = .ok l)
    {rs : List Request} (hz : ∀ ptr lock, .deallocate ptr 0 lock ∉ rs)
    (hr : ∀ old new key, r ≠ .relocate old new key) (hv : ((l.after rs).serve r).1 = .error v) :
    let before := l.after rs
    let after := before.step r
    (∀ key lock, after.observe key lock = before.observe key lock) ∧
      after.freeMap = before.freeMap ∧ after.tracked = before.tracked ∧
      after.stack = before.stack ∧
      (∀ qs : List Request, (∀ q ∈ qs, q.issues) → after.handedOut qs = before.handedOut qs) ∧
      (after = before ∨ (∃ ptr, r = .allocate ptr) ∧ after.nextKey = before.nextKey + 1) := by
  intro before after
  have hregular : Runs.Always Watched.step Watched.Regular l.watched rs := by
    refine Runs.always_of_mem fun q hq w ptr lock he _ => ?_
    exact absurd (he ▸ hq) (hz ptr lock)
  have hw := (stocked_create hsmall hc).after hregular
  have hwell : (l.watched.after rs).lifetimes.WellFormed := by
    rw [Watched.after_lifetimes]
    exact wellFormed_after (wellFormed_create hc hsmall) rs
  have hlifetimes : (l.watched.after rs).lifetimes = before := l.watched.after_lifetimes rs
  have hcell := hw.cell?_of_refused hwell hr (by rwa [hlifetimes])
  have halike := hw.alike
  rw [hlifetimes] at hcell halike
  obtain ⟨hnext, hmap, hstack, hkeys⟩ := halike.of_refused hr hv
  refine ⟨fun key lock => ?_, hmap, ?_, hstack, fun qs hqs => hnext.handedOut hqs, hkeys⟩
  · rw [observe, observe, hcell lock]
  · rw [tracked, tracked, hmap]

/-- The map cannot record the address, so the cell taken from the end of the used ones goes on the
free list, from where the next allocation takes it. -/
theorem refused_request_leaves_no_trace_of_taken_cell :
    ∃ l, Lifetimes.create .standard 4 .perCall 4 (some 3) = .ok l ∧ 4 ≤ linkEnd ∧
      (∀ ptr lock, Request.deallocate ptr 0 lock ∉ [.allocate 0x1000]) ∧
      (∀ old new key, Request.allocate tombstone ≠ .relocate old new key) ∧
      ((l.after [.allocate 0x1000]).serve (.allocate tombstone)).1
        = .error (.untrackableAddress tombstone) ∧
      (∀ q ∈ [Request.allocate 0x2000, .stackAllocate, .allocate 0x3000], q.issues) ∧
      ((l.after [.allocate 0x1000]).step (.allocate tombstone)).handedOut
          [.allocate 0x2000, .stackAllocate, .allocate 0x3000]
        = [.ok (some (heapLocksAddr + 8)), .ok (some stackLocksAddr),
            .ok (some (heapLocksAddr + 16))] := by
  obtain ⟨l, hc, hv, hbefore⟩ : ∃ l, Lifetimes.create .standard 4 .perCall 4 (some 3) = .ok l ∧
      ((l.after [.allocate 0x1000]).serve (.allocate tombstone)).1
        = .error (.untrackableAddress tombstone) ∧
      (l.after [.allocate 0x1000]).handedOut [.allocate 0x2000, .stackAllocate, .allocate 0x3000]
        = [.ok (some (heapLocksAddr + 8)), .ok (some stackLocksAddr),
            .ok (some (heapLocksAddr + 16))] :=
    ⟨_, rfl, rfl, rfl⟩
  have hz : ∀ ptr lock, Request.deallocate ptr 0 lock ∉ [.allocate 0x1000] := by simp
  have hr : ∀ old new key, Request.allocate tombstone ≠ .relocate old new key := by simp
  have hqs : ∀ q ∈ [Request.allocate 0x2000, .stackAllocate, .allocate 0x3000], q.issues := by
    decide
  obtain ⟨_, _, _, _, hsame, _⟩ := refused_request_leaves_no_trace (by decide) hc hz hr hv
  exact ⟨l, hc, by decide, hz, hr, hv, hqs, (hsame _ hqs).trans hbefore⟩

/-- In an arena of 2^32 cells a refused request can be noticed: no lease gets the last cell. -/
theorem refused_request_loses_last_cell :
    ∃ l, Lifetimes.create .standard (linkEnd + 1) .perCall 1 (some (linkEnd + 1)) = .ok l ∧
      let rs := List.replicate linkEnd (.allocate 0x1000)
      (∀ ptr lock, Request.deallocate ptr 0 lock ∉ rs) ∧
        ((l.after rs).serve (.allocate tombstone)).1 = .error (.untrackableAddress tombstone) ∧
        (l.after rs).handedOut [.allocate 0x2000] = [.ok (some (heapLocksAddr + 0x7fffffff8))] ∧
        ((l.after rs).step (.allocate tombstone)).handedOut [.allocate 0x2000]
          = [.error (.exhausted .lockArena)] := by
  obtain ⟨l, hc, hbase⟩ : ∃ l,
      Lifetimes.create .standard (linkEnd + 1) .perCall 1 (some (linkEnd + 1)) = .ok l ∧
        l.heap.base = heapLocksAddr := ⟨_, rfl, rfl⟩
  have hempty := filled_create hc
  rw [hbase] at hempty
  have hz : ∀ ptr lock,
      Request.deallocate ptr 0 lock ∉ List.replicate linkEnd (.allocate 0x1000) := by
    intro ptr lock hm
    cases List.eq_of_mem_replicate hm
  have hroom : 0 + linkEnd ≤ linkEnd + 1 := by omega
  have hvalid : isMarker 0x1000 = false := rfl
  have hfilled := hempty.after_replicate hroom hroom hvalid
  rw [Nat.zero_add] at hfilled
  exact ⟨l, hc, hz, hfilled.loses_last_cell rfl (Nat.lt_succ_self linkEnd) rfl⟩

end Lifetimes

end PointerGuard
