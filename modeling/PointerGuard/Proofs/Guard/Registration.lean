import PointerGuard.Proofs.Guard.Dereference
import PointerGuard.Proofs.Lifetimes.Room
import PointerGuard.Proofs.Trie.Preallocation

namespace PointerGuard

variable {host : Host}

namespace Trie

variable {mode : Mode} {t t' : Trie mode} {addr other : Word} {v : Violation}

/-- Preallocation goes by segments. -/
theorem preallocate_of_segment (h : (t.preallocate addr).1 = .ok ())
    (hs : segmentOf other = segmentOf addr) : t.preallocate other = t.preallocate addr := by
  unfold preallocate at h ⊢
  rw [hs]
  cases hp : t.policy with
  | lazy => rfl
  | eager =>
    rw [hp] at h
    simp only at h ⊢
    split at h
    next => cases h
    next hreach => rw [if_neg hreach, if_neg hreach]

theorem preallocate_again (h : (t.preallocate addr).1 = .ok ()) :
    (t.preallocate addr).2.preallocate addr = (.ok (), (t.preallocate addr).2) := by
  cases hp : t.policy with
  | lazy => simp only [preallocate, hp]
  | eager =>
    by_cases hreach : t.primary.len ≤ segmentOf addr
    · simp [preallocate, hp, hreach] at h
    · have hall {u : Trie mode} (hu : Grown t u) :
          u.preallocate addr = u.installAll (t.neighbours (segmentOf addr)) := by
        simp only [preallocate, hu.policy, hp, hu.len, if_neg hreach, neighbours]
      rw [hall (.refl t)] at h ⊢
      rw [hall (Outside.installAll (W := fun _ => True) _).grown]
      exact installAll_again h

/-- A refused preallocation installs nothing, unless the numbers of the tables have run out. -/
theorem preallocate_unchanged (ht : t.Directory) (hlimit : t.tables.size ≤ tableLimit)
    (hv : (t.preallocate addr).1 = .error v)
    (hnumbers : v ≠ .exhausted .secondaryTable ∨ t.primary.len ≤ tableLimit) :
    (t.preallocate addr).2 = t := by
  cases hp : t.policy with
  | lazy => simp only [preallocate, hp]
  | eager =>
    refine (preallocate_installs hp hlimit addr).unchanged hv
      (hnumbers.imp_right fun hslots => ht.roomFor hslots fun s hs => ?_)
    exact Finset.mem_range.mp (Finset.mem_filter.mp hs).1

/-- A preallocation that succeeds after some installations would have succeeded before. -/
theorem preallocate_of_grown (h : Grown t t') (hlimit : t'.tables.size ≤ tableLimit)
    (hok : (t'.preallocate addr).1 = .ok ()) : (t.preallocate addr).1 = .ok () := by
  cases hp : t.policy with
  | lazy => simp only [preallocate, hp]
  | eager =>
    have hbefore := preallocate_installs hp (h.size_le.trans hlimit) addr
    have hafter := preallocate_installs (h.policy.trans hp) hlimit addr
    rw [h.len] at hafter
    obtain ⟨hin, hroom⟩ := hafter.succeeds.mp hok
    exact hbefore.succeeds.mpr ⟨hin, h.roomFor hroom⟩

/-- Every segment has an address that marks nothing. -/
theorem exists_address (addr : Word) :
    ∃ other, isMarker other = false ∧ segmentOf other = segmentOf addr := by
  have hlt := addr.toNat_lt
  have hseg : segmentOf addr * 33554432 + 8 < 2 ^ 64 - 1 := by
    have hdef : segmentOf addr = addr.toNat / 33554432 := rfl
    omega
  have hnat : (UInt64.ofNat (segmentOf addr * 33554432 + 8)).toNat = segmentOf addr * 33554432 + 8 :=
    toNat_ofNat_of_lt (by omega)
  refine ⟨.ofNat (segmentOf addr * 33554432 + 8), FreeMap.isMarker_eq_false_iff.mpr ⟨?_, ?_⟩, ?_⟩
  · intro heq
    have hzero := congrArg UInt64.toNat heq
    rw [hnat] at hzero
    simp [emptySlot] at hzero
  · intro heq
    have hmax := congrArg UInt64.toNat heq
    rw [hnat] at hmax
    simp only [tombstone, UInt64.reduceToNat] at hmax
    omega
  · show (UInt64.ofNat (segmentOf addr * 33554432 + 8)).toNat / 33554432 = segmentOf addr
    rw [hnat]
    omega

end Trie

namespace Guard

variable {mode : Mode} {g g' : Guard mode} {l : Lifetimes} {ptr size : Word} {lease : Lease}
  {v : Violation} {n : Nat}

theorem run_allocateObject_of_refused (h : (allocate ptr).run g = (.error v, g')) (size : Word) :
    (allocateObject ptr size).run g = (.error v, g') := by
  rw [allocateObject, Action.run_bind_of_error h]

theorem run_allocateObject_of_fit (h : (allocate ptr).run g = (.ok lease, g'))
    (hfit : ptr.toNat + size.toNat < 2 ^ 64) : (allocateObject ptr size).run g
      = (.ok (mode.keep ⟨ptr, ptr + size, lease.key, lease.lock⟩), g') := by
  rw [allocateObject, Action.run_bind_of_ok h, checkedAdd_eq_some_iff.mpr ⟨hfit, rfl⟩]
  rfl

/-- The end of the object is not a word, but the object is registered. -/
theorem run_allocateObject_of_long (h : (allocate ptr).run g = (.ok lease, g'))
    (hlong : 2 ^ 64 ≤ ptr.toNat + size.toNat) :
    (allocateObject ptr size).run g = (.error (.untrackableAddress ptr), g') := by
  have hnone : checkedAdd ptr size = none := if_neg (Nat.not_lt.mpr hlong)
  rw [allocateObject, Action.run_bind_of_ok h, hnone]
  rfl

theorem allocateObject_eq_error_iff : (∃ v, ((allocateObject ptr size).run g).1 = .error v) ↔
    (∃ v, ((allocate ptr).run g).1 = .error v) ∨ 2 ^ 64 ≤ ptr.toNat + size.toNat := by
  cases hrun : (allocate ptr).run g with
  | mk r g' =>
    cases r with
    | error v =>
      rw [run_allocateObject_of_refused hrun]
      exact iff_of_true ⟨v, rfl⟩ (Or.inl ⟨v, rfl⟩)
    | ok lease =>
      by_cases hfit : ptr.toNat + size.toNat < 2 ^ 64
      · rw [run_allocateObject_of_fit hrun hfit]
        refine iff_of_false (fun ⟨v, hv⟩ => by cases hv) ?_
        rintro (⟨v, hv⟩ | hlong)
        · cases hv
        · exact Nat.not_lt.mpr hlong hfit
      · rw [run_allocateObject_of_long hrun (Nat.le_of_not_lt hfit)]
        exact iff_of_true ⟨_, rfl⟩ (Or.inr (Nat.le_of_not_lt hfit))

/-- Objects can be registered at these addresses, one after the other. -/
def Registers : Guard mode → List Word → Prop
  | _, [] => True
  | g, ptr :: ptrs => (∃ lease, ((allocate ptr).run g).1 = .ok lease) ∧
    ((allocate ptr).run g).2.Registers ptrs

/-- At least `n` further objects can be registered. -/
def CanRegister (g : Guard mode) (n : Nat) : Prop :=
  ∃ ptrs : List Word, ptrs.length = n ∧ g.Registers ptrs

theorem room_of_registers {ptrs : List Word} (hl : g.lifetimes = some l) (hwell : l.WellFormed)
    (h : g.Registers ptrs) : l.Room ptrs.length := by
  induction ptrs generalizing g l with
  | nil => exact Lifetimes.room_zero hwell
  | cons ptr ptrs ih =>
    obtain ⟨⟨lease, hlease⟩, hrest⟩ := h
    cases ht : (g.trie.preallocate ptr).1 with
    | error v =>
      rw [run_allocate_of_error ht] at hlease
      cases hlease
    | ok _ =>
      have hrun := run_allocate_of_ok hl ht
      rw [hrun] at hlease hrest
      exact (Lifetimes.room_of_granted hlease).mp (ih rfl (hwell.allocate ptr) hrest)

theorem registers_of_room (hl : g.lifetimes = some l) (hwell : l.WellFormed)
    (ht : (g.trie.preallocate ptr).1 = .ok ()) (hp : isMarker ptr = false) (hr : l.Room n) :
    g.Registers (List.replicate n ptr) := by
  induction n generalizing g l with
  | zero => trivial
  | succ n ih =>
    obtain ⟨lease, hlease⟩ := Lifetimes.lease_of_room hwell hp hr
    have hrun := run_allocate_of_ok hl ht
    have hroom := (Lifetimes.room_of_granted hlease).mpr hr
    refine ⟨⟨lease, by rw [hrun, hlease]⟩, ?_⟩
    rw [hrun]
    exact ih rfl (hwell.allocate ptr) (congrArg Prod.fst (Trie.preallocate_again ht)) hroom

/-- Where the tables around one address can be had, objects can be registered as long as there are
cells and records. -/
theorem canRegister_iff (hl : g.lifetimes = some l) (hwell : l.WellFormed)
    (ht : (g.trie.preallocate ptr).1 = .ok ()) : g.CanRegister n ↔ l.Room n := by
  constructor
  · rintro ⟨ptrs, rfl, h⟩
    exact room_of_registers hl hwell h
  · intro hr
    -- The address itself may be a marker, which the free map does not record.
    obtain ⟨addr, haddr, hseg⟩ := Trie.exists_address ptr
    have hother := Trie.preallocate_of_segment ht hseg
    have hroom := registers_of_room hl hwell (congrArg Prod.fst hother ▸ ht) haddr hr
    exact ⟨_, List.length_replicate, hroom⟩

/-- Tables that a refused preallocation has installed make room for no object. -/
theorem canRegister_of_grown {t : Trie mode} (hl : g.lifetimes = some l) (hwell : l.WellFormed)
    (h : g.trie.Grown t) (hlimit : t.tables.size ≤ tableLimit)
    (hcan : ({ g with trie := t } : Guard mode).CanRegister n) : g.CanRegister n := by
  obtain ⟨ptrs, rfl, hregisters⟩ := hcan
  cases ptrs with
  | nil => exact ⟨[], rfl, trivial⟩
  | cons ptr ptrs =>
    obtain ⟨⟨lease, hlease⟩, _⟩ := id hregisters
    cases hp : (t.preallocate ptr).1 with
    | error v =>
      rw [run_allocate_of_error hp] at hlease
      cases hlease
    | ok _ =>
      have hbefore := Trie.preallocate_of_grown h hlimit hp
      have hroom := room_of_registers (g := { g with trie := t }) hl hwell hregisters
      exact (canRegister_iff hl hwell hbefore).mpr hroom

/-- The lifetimes of every state that a run reaches, as a run of their own reaches them. -/
theorem exists_lifetimes {config : Config} (hc : Guard.create host config = .ok g)
    (ht : mode.tracksLifetime = true) (ops : List Operation) :
    ∃ l, (g.after ops).lifetimes = some l ∧ l.WellFormed ∧
      ((∀ ptr lock, .deallocate ptr 0 lock ∉ ops) →
        ∃ w : Lifetimes.Watched, w.Settled ∧ w.lifetimes = l) := by
  obtain ⟨hvalid, _, hlife⟩ := create_eq_ok hc
  obtain ⟨l, hl, hlc⟩ := hlife ht
  obtain ⟨_, hsmall, _⟩ := Config.validate_eq_ok_iff.mp hvalid
  have hwell := Lifetimes.wellFormed_after (Lifetimes.wellFormed_create hlc hsmall.le)
    (g.requestsOf ops)
  refine ⟨_, lifetimes_after hl ops, hwell, fun hzero => ?_⟩
  have hsettled := (Lifetimes.settled_create hsmall.le hlc).after
    (regular_requestsOf (g := g) hzero _)
  exact ⟨_, hsettled, Lifetimes.Watched.after_lifetimes l.watched (g.requestsOf ops)⟩

/-- A refused registration leaves as much room as there was, unless the numbers of the tables have
run out, and all else that the lifetimes show, but for one cell at most. -/
theorem keeps_of_refused (ht : g.trie.Directory) (hlimit : g.trie.tables.size ≤ tableLimit)
    (hl : g.lifetimes = some l) (hwell : l.WellFormed)
    (h : ((allocate ptr).run g).1 = .error v) (hg : ((allocate ptr).run g).2 = g') :
    g'.tracked = g.tracked ∧ (∀ n, g'.CanRegister n → g.CanRegister n) ∧
      (v ≠ .exhausted .secondaryTable ∨ g.trie.primary.len ≤ tableLimit →
        ∀ n, g.CanRegister n → g'.CanRegister n) ∧
      (∃ spot, ∀ lock, g'.observed lock = g.observed lock ∨
        lock = spot ∧ g'.observed lock = some 0) ∧
      ((∃ w : Lifetimes.Watched, w.Settled ∧ w.lifetimes = l) →
        ∀ lock, g'.observed lock = g.observed lock) := by
  cases hp : (g.trie.preallocate ptr).1 with
  | error w =>
    rw [run_allocate_of_error hp] at h hg
    cases h
    cases hg
    have hgrown : g.trie.Grown (g.trie.preallocate ptr).2 :=
      (Trie.Outside.preallocate (W := fun _ => True) ptr).grown
    refine ⟨rfl, fun n => canRegister_of_grown hl hwell hgrown (hgrown.size_le_limit hlimit),
      fun hnumbers n hcan => ?_, ⟨0, fun _ => Or.inl rfl⟩, fun _ _ => rfl⟩
    rwa [Trie.preallocate_unchanged ht hlimit hp hnumbers]
  | ok _ =>
    rw [run_allocate_of_ok hl hp] at h hg
    have hroom : ∀ n, g'.CanRegister n ↔ g.CanRegister n := by
      intro n
      rw [← hg, canRegister_iff hl hwell hp, canRegister_iff rfl (hwell.allocate ptr)
        (congrArg Prod.fst (Trie.preallocate_again hp))]
      exact Lifetimes.room_of_refused hwell h
    cases hg
    have hobserved := observed_of_some hl
    refine ⟨?_, fun n => (hroom n).mp, fun _ n => (hroom n).mpr, ?_, ?_⟩
    · rw [tracked, tracked, hl]
      exact Lifetimes.tracked_of_refused h
    · simp only [hobserved]
      exact Lifetimes.cell?_of_refused hwell.placed h
    · rintro ⟨w, hw, rfl⟩ lock
      rw [hobserved]
      exact hw.cell?_of_refused hwell h lock

/-- A registration that is granted takes one cell and one record, and its lock cell holds its key.
-/
theorem takes_of_granted (hl : g.lifetimes = some l) (hwell : l.WellFormed)
    (h : ((allocate ptr).run g).1 = .ok lease) (hg : ((allocate ptr).run g).2 = g') :
    g'.tracked = g.tracked.map (· + 1) ∧ (∀ n, g'.CanRegister n ↔ g.CanRegister (n + 1)) ∧
      g'.observed lease.lock = some lease.key := by
  cases ht : (g.trie.preallocate ptr).1 with
  | error w =>
    rw [run_allocate_of_error ht] at h
    cases h
  | ok _ =>
    rw [run_allocate_of_ok hl ht] at h hg
    cases hg
    refine ⟨?_, fun n => ?_, ?_⟩
    · rw [tracked, tracked, hl]
      exact Lifetimes.tracked_of_granted h
    · rw [canRegister_iff hl hwell ht, canRegister_iff rfl (hwell.allocate ptr)
        (congrArg Prod.fst (Trie.preallocate_again ht))]
      exact Lifetimes.room_of_granted h
    · exact Lifetimes.check_eq_ok_iff.mp (hwell.check_of_allocate h)

/-- A registration that is refused registers nothing, but an object that would end beyond the words
stays registered under a lease that nobody was told of. -/
theorem refused_allocateObject_registers_nothing {config : Config}
    (hc : Guard.create host config = .ok g) (ht : mode.tracksLifetime = true) (ops : List Operation)
    (ptr size : Word) :
    let before := g.after ops
    let r := ((allocateObject ptr size).run before).1
    let after := ((allocateObject ptr size).run before).2
    ((∃ v, r = .error v) ↔
      (∃ v, ((allocate ptr).run before).1 = .error v) ∨ 2 ^ 64 ≤ ptr.toNat + size.toNat) ∧
    (∀ v, ((allocate ptr).run before).1 = .error v →
      r = .error v ∧ after.tracked = before.tracked ∧
      (∀ n, after.CanRegister n → before.CanRegister n) ∧
      (v ≠ .exhausted .secondaryTable ∨ config.primaryEntries ≤ tableLimit →
        ∀ n, before.CanRegister n → after.CanRegister n) ∧
      (∃ spot, ∀ lock, after.observed lock = before.observed lock ∨
        lock = spot ∧ after.observed lock = some 0) ∧
      ((∀ ptr lock, .deallocate ptr 0 lock ∉ ops) →
        ∀ lock, after.observed lock = before.observed lock)) ∧
    ∀ lease, ((allocate ptr).run before).1 = .ok lease → 2 ^ 64 ≤ ptr.toNat + size.toNat →
      r = .error (.untrackableAddress ptr) ∧ after.tracked = before.tracked.map (· + 1) ∧
      (∀ n, after.CanRegister n ↔ before.CanRegister (n + 1)) ∧
      after.observed lease.lock = some lease.key := by
  intro before r after
  obtain ⟨l, hl, hwell, hsettled⟩ := exists_lifetimes hc ht ops
  obtain ⟨_, htc, _⟩ := create_eq_ok hc
  have hgrown : Trie.Grown g.trie before.trie :=
    (outside_after (W := fun _ => True) g ops fun _ _ _ _ => trivial).grown
  have hcreate := Trie.create_eq_ok htc
  have hlen : before.trie.primary.len = config.primaryEntries := by rw [hgrown.len, hcreate]
  have hlimit : before.trie.tables.size ≤ tableLimit :=
    hgrown.size_le_limit (by rw [hcreate]; exact Nat.zero_le _)
  refine ⟨allocateObject_eq_error_iff, ?_, ?_⟩
  · intro v hv
    have hrun := run_allocateObject_of_refused (Prod.ext hv rfl) size
    obtain ⟨htracked, hnoMore, hnoLess, hcells, hsame⟩ := keeps_of_refused
      (hgrown.directory (Trie.directory_create htc)) hlimit hl hwell hv (congrArg Prod.snd hrun).symm
    rw [hlen] at hnoLess
    exact ⟨congrArg Prod.fst hrun, htracked, hnoMore, hnoLess, hcells,
      fun hzero => hsame (hsettled hzero)⟩
  · intro lease hlease hlong
    have hrun := run_allocateObject_of_long (Prod.ext hlease rfl) hlong
    obtain ⟨htracked, hroom, hcell⟩ := takes_of_granted hl hwell hlease
      (congrArg Prod.snd hrun).symm
    exact ⟨congrArg Prod.fst hrun, htracked, hroom, hcell⟩

/-- An address that the free map cannot record is turned away after its cell was taken, and the cell
goes back; an object that ends beyond the words keeps the last cell. -/
theorem refused_allocateObject_registers_nothing_when_turned_away :
    ∃ g : Guard .combined, Guard.create .standard { Config.compact with lockEntries := 2 } = .ok g ∧
      Mode.combined.tracksLifetime = true ∧
      let before := g.after [.allocate 0x1000]
      let turned := ((allocateObject tombstone 0).run before).2
      let long := ((allocateObject 0xfffffffffffffff0 0x20).run before).2
      turned.tracked = some 1 ∧ (∀ n, turned.CanRegister n ↔ before.CanRegister n) ∧
      (∀ lock, turned.observed lock = before.observed lock) ∧
      long.tracked = some 2 ∧ ∀ n, long.CanRegister n ↔ before.CanRegister (n + 1) := by
  have hc : (Guard.create .standard { Config.compact with lockEntries := 2 } :
      Except _ (Guard .combined)) = .ok _ := rfl
  have hzero : ∀ ptr lock, Operation.deallocate ptr 0 lock ∉ [.allocate 0x1000] := by simp
  obtain ⟨_, hrefused, _⟩ :=
    refused_allocateObject_registers_nothing hc rfl [.allocate 0x1000] tombstone 0
  obtain ⟨_, _, hlong⟩ := refused_allocateObject_registers_nothing hc rfl [.allocate 0x1000]
    0xfffffffffffffff0 0x20
  obtain ⟨_, htracked, hnoMore, hnoLess, _, hcells⟩ := hrefused (.untrackableAddress tombstone) rfl
  obtain ⟨_, htracked', hroom', _⟩ := hlong ⟨3, heapLocksAddr + 8⟩ rfl (by decide)
  exact ⟨_, hc, rfl, htracked.trans rfl, fun n => ⟨hnoMore n, hnoLess (Or.inr (by decide)) n⟩,
    hcells hzero, htracked'.trans rfl, hroom'⟩

/-- The registration fails, and afterwards an object is tracked and a lock cell holds a key. -/
theorem failed_allocateObject_stays_registered :
    ∃ g : Guard .combined, Guard.create .standard Config.compact = .ok g ∧
      ((allocateObject 0xfffffffffffffff0 0x20).run g).1
        = .error (.untrackableAddress 0xfffffffffffffff0) ∧
      g.tracked = some 0 ∧ g.observed heapLocksAddr = some 0 ∧
      ((allocateObject 0xfffffffffffffff0 0x20).run g).2.tracked = some 1 ∧
      ((allocateObject 0xfffffffffffffff0 0x20).run g).2.observed heapLocksAddr = some 2 :=
  ⟨_, rfl, rfl, rfl, rfl, rfl, rfl⟩

end Guard

end PointerGuard
