import PointerGuard.Proofs.Lifetimes.Holdings

namespace PointerGuard.Lifetimes

variable {host : Host}
variable {l l' : Lifetimes} {lockEntries stackEntries : Nat} {policy : StackLockPolicy}
  {freeMapEntries : Option Nat}

theorem deallocate_eq_ok_iff {ptr key lock : Word} :
    (∃ l', l.deallocate ptr key lock = .ok l') ↔
      l.heap.observe lock = some key ∧ ∀ m, l.freeMap = some m → m.contains key ptr = true := by
  unfold deallocate LockArena.observe
  cases hi : l.heap.indexOf lock with
  | none => simp
  | some i =>
    by_cases hk : l.heap.cells.get i = key
    · cases hm : l.freeMap with
      | none => simp [hk]
      | some m =>
        cases hf : m.find? key ptr <;> simp [hk, FreeMap.remove, FreeMap.contains, hf]
    · simp [hk]

theorem relocate_eq_ok_iff {m : FreeMap} {old new key : Word} (hm : l.freeMap = some m) :
    (l.relocate old new key).1 = .ok () ↔ isMarker new = false ∧ m.contains key old = true := by
  unfold relocate
  rw [hm, ← FreeMap.remove_eq_ok_iff]
  cases hr : m.remove key old with
  | error v => simp [hr]
  | ok removed =>
    cases hi : removed.insert key new with
    | ok map =>
      have hn := (FreeMap.insert_eq_ok hi).1
      simp [hr, hi, hn]
    | error v =>
      have hn : isMarker new ≠ false := by
        intro hn
        obtain ⟨m'', hm''⟩ := FreeMap.insert_of_remove hr key hn
        rw [hi] at hm''
        cases hm''
      obtain ⟨map, hb⟩ := FreeMap.insert_of_remove hr key (FreeMap.isMarker_of_remove hr)
      simp [hr, hi, hb, hn]

/-- What the free map should record of the live allocations. -/
def records (held : List Holding) : List (Word × Word) :=
  held.map fun h => (h.lease.key, h.addr)

theorem records_perm {held rest : List Holding} (h : held.Perm rest) :
    (records held).Perm (records rest) :=
  h.map _

theorem perm_cons_filter_lease {held : List Holding} {h : Holding}
    (hn : (held.map Holding.lease).Nodup) (hh : h ∈ held) :
    held.Perm (h :: held.filter (·.lease ≠ h.lease)) := by
  have heq : held.filter (·.lease ≠ h.lease) = held.filter (· ≠ h) := by
    refine List.filter_congr fun x hx => decide_eq_decide.mpr (not_congr ⟨fun hl => ?_, ?_⟩)
    · exact List.inj_on_of_nodup_map hn hx hh hl
    · exact congrArg Holding.lease
  rw [heq]
  exact perm_cons_filter_ne (List.Nodup.of_map _ hn) hh

theorem carries_remove {m m' : FreeMap} {rs qs : List (Word × Word)} {key addr : Word}
    (h : m.Carries rs) (hp : rs.Perm ((key, addr) :: qs)) (hr : m.remove key addr = .ok m') :
    m'.Carries qs := by
  obtain ⟨m'', hr', hqs⟩ := (h.perm hp).remove
  cases hr.symm.trans hr'
  exact hqs

theorem exists_of_rel_some {α β : Type} {R : α → β → Prop} {o : Option α} {b : β}
    (h : Option.Rel R o (some b)) : ∃ x, o = some x ∧ R x b := by
  cases h with
  | some h => exact ⟨_, rfl, h⟩

theorem isSome_of_rel {α β : Type} {R : α → β → Prop} {o : Option α} {p : Option β}
    (h : Option.Rel R o p) : p.isSome = o.isSome := by
  cases h <;> rfl

/-- Faithful requests keep the free map and the account of live allocations together. -/
theorem Change.carries {w : Watched} {r : Request} {a : Except Violation (Option Lease)}
    (hn : w.leases.Nodup) (hm : ∀ m, w.lifetimes.freeMap = some m → m.Carries (records w.held))
    (h : Change w.lifetimes r a l') (hf : w.Faithful r) {m' : FreeMap}
    (hm' : l'.freeMap = some m') : m'.Carries (records (note w.held r a)) := by
  cases h with
  | refused r v =>
    rw [note_error]
    exact hm m' hm'
  | granted _ _ hi =>
    cases hm'
    obtain ⟨m, hfm, hi⟩ := exists_of_rel_some hi
    exact (hm m hfm).insert hi
  | turnedAway _ _ _ _ => exact hm m' hm'
  | released _ _ hr =>
    cases hm'
    obtain ⟨m, hfm, hr⟩ := exists_of_rel_some hr
    exact carries_remove (hm m hfm) (records_perm (perm_cons_filter_lease hn hf)) hr
  | @moved _ new _ _ hr =>
    cases hm'
    obtain ⟨m, hfm, removed, hr, hi⟩ := exists_of_rel_some hr
    obtain ⟨lease, rest, rfl, hold, hnew⟩ := move_perm hf new
    have hrest := carries_remove (hm m hfm) (records_perm hold) hr
    exact (hrest.insert hi).perm (records_perm hnew.symm)
  | @restored _ new _ _ _ _ _ hfm hr _ hb =>
    cases hm'
    obtain ⟨lease, rest, rfl, hold, _⟩ := move_perm hf new
    have hrest := carries_remove (hm _ hfm) (records_perm hold) hr
    exact (hrest.insert hb).perm (records_perm hold.symm)
  | shared _ => exact hm m' hm'
  | pushed _ _ => exact hm m' hm'
  | ignored _ => exact hm m' hm'
  | popped _ _ => exact hm m' hm'

theorem Change.freeMap_isSome {r : Request} {a : Except Violation (Option Lease)}
    (h : Change l r a l') : l'.freeMap.isSome = l.freeMap.isSome := by
  cases h with
  | granted _ _ hi => exact isSome_of_rel hi
  | released _ _ hr => exact isSome_of_rel hr
  | moved hr => exact isSome_of_rel hr
  | restored hfm _ _ _ => simp [hfm]
  | _ => rfl

/-- What faithful requests keep. -/
structure Kept (w : Watched) : Prop extends w.Settled where
  carries : ∀ m, w.lifetimes.freeMap = some m → m.Carries (records w.held)

theorem Kept.step {w : Watched} {r : Request} (h : Kept w) (hf : w.Faithful r) :
    Kept (w.step r) := by
  obtain ⟨free, hd⟩ := h.divided
  have hn : w.leases.Nodup := List.Nodup.of_map _ hd.locks_nodup
  exact ⟨h.toSettled.step hf.regular, fun m hm => (w.change r).carries hn h.carries hf hm⟩

theorem kept_after (hsmall : lockEntries ≤ linkEnd)
    (hc : Lifetimes.create host lockEntries policy stackEntries freeMapEntries = .ok l)
    {rs : List Request} (hr : Runs.Always Watched.step Watched.Faithful l.watched rs) :
    Kept (l.watched.after rs) := by
  refine Runs.foldl_of_always (fun w r h hf => Kept.step h hf) ?_ hr
  refine ⟨settled_create hsmall hc, fun m hm => ?_⟩
  obtain ⟨_, _, _, _, _, hmap⟩ := Lifetimes.create_eq_ok hc
  replace hm : l.freeMap = some m := hm
  rw [hm] at hmap
  obtain ⟨n, _, hn⟩ := exists_of_rel_some hmap
  exact FreeMap.carries_create hn

theorem watched_freeMap {n : Nat}
    (hc : Lifetimes.create host lockEntries policy stackEntries (some n) = .ok l) (rs : List Request) :
    ∃ m, (l.watched.after rs).lifetimes.freeMap = some m := by
  obtain ⟨_, _, _, _, _, hmap⟩ := Lifetimes.create_eq_ok hc
  refine Option.isSome_iff_exists.mp (Runs.foldl_invariant
    (I := fun w : Watched => w.lifetimes.freeMap.isSome = true)
    (fun w r h => ((w.change r).freeMap_isSome).trans h) rs ?_)
  exact isSome_of_rel hmap

namespace Kept

variable {w : Watched} {m : FreeMap}

theorem contains (hk : Kept w) (hm : w.lifetimes.freeMap = some m) {h : Holding}
    (hh : h ∈ w.held) : m.contains h.lease.key h.addr = true :=
  (hk.carries m hm).contains (List.mem_map.mpr ⟨h, hh, rfl⟩)

/-- The free map finds addresses of live allocations only. -/
theorem exists_holding (hk : Kept w) (hm : w.lifetimes.freeMap = some m) {key ptr : Word}
    (hf : m.contains key ptr = true) : ∃ h ∈ w.held, h.addr = ptr := by
  obtain ⟨other, ho⟩ := (hk.carries m hm).exists_record hf
  obtain ⟨h, hh, heq⟩ := List.mem_map.mp ho
  exact ⟨h, hh, congrArg Prod.snd heq⟩

theorem contains_iff (hk : Kept w) (hm : w.lifetimes.freeMap = some m) {h : Holding}
    (hh : h ∈ w.held) {key : Word} : m.contains key h.addr = true ↔ m.Meets key h.addr := by
  rw [FreeMap.contains_iff]
  exact and_iff_right (FreeMap.contains_iff.mp (hk.contains hm hh)).1

theorem deallocate_iff (hk : Kept w) (hm : w.lifetimes.freeMap = some m) {ptr key lock : Word} :
    (∃ l', w.lifetimes.deallocate ptr key lock = .ok l') ↔
      ⟨ptr, ⟨key, lock⟩⟩ ∈ w.held ∨
        (⟨key, lock⟩ ∈ w.leases ∨ key = 0 ∧ (w.lifetimes.heap.indexOf lock).isSome ∧
          lock ∉ w.leases.map Lease.lock) ∧
        ∃ h ∈ w.held, h.addr = ptr ∧ h.lease ≠ ⟨key, lock⟩ ∧ m.Meets key ptr := by
  obtain ⟨free, hd⟩ := hk.divided
  have hmap : (∀ m', w.lifetimes.freeMap = some m' → m'.contains key ptr = true) ↔
      m.contains key ptr = true := by
    rw [hm]
    simp
  rw [deallocate_eq_ok_iff, hd.observe_eq_some_iff, hmap]
  constructor
  · rintro ⟨hopen, hf⟩
    obtain ⟨h, hh, rfl⟩ := hk.exists_holding hm hf
    by_cases hl : h.lease = ⟨key, lock⟩
    · exact Or.inl (hl ▸ hh)
    · exact Or.inr ⟨hopen, h, hh, rfl, hl, (hk.contains_iff hm hh).mp hf⟩
  · rintro (hh | ⟨hopen, h, hh, rfl, _, hmeets⟩)
    · exact ⟨Or.inl (List.mem_map.mpr ⟨_, hh, rfl⟩), hk.contains hm hh⟩
    · exact ⟨hopen, (hk.contains_iff hm hh).mpr hmeets⟩

theorem relocate_iff (hk : Kept w) (hm : w.lifetimes.freeMap = some m) {old new key : Word} :
    (w.lifetimes.relocate old new key).1 = .ok () ↔
      isMarker new = false ∧ ∃ h ∈ w.held, h.addr = old ∧
        (h.lease.key = key ∨ m.Meets key old) := by
  rw [relocate_eq_ok_iff hm]
  refine and_congr_right fun _ => ⟨fun hf => ?_, ?_⟩
  · obtain ⟨h, hh, rfl⟩ := hk.exists_holding hm hf
    exact ⟨h, hh, rfl, Or.inr ((hk.contains_iff hm hh).mp hf)⟩
  · rintro ⟨h, hh, rfl, rfl | hmeets⟩
    · exact hk.contains hm hh
    · exact (hk.contains_iff hm hh).mpr hmeets

theorem isMarker_addr (hk : Kept w) (hm : w.lifetimes.freeMap = some m) {h : Holding}
    (hh : h ∈ w.held) : isMarker h.addr = false :=
  (FreeMap.contains_iff.mp (hk.contains hm hh)).1

/-- A lease is not released at an address where no live allocation is. -/
theorem deallocate_elsewhere (hk : Kept w) (hm : w.lifetimes.freeMap = some m)
    {ptr key lock : Word} (hl : ⟨key, lock⟩ ∈ w.leases) (hno : ∀ h ∈ w.held, h.addr ≠ ptr) :
    w.lifetimes.deallocate ptr key lock = .error (.invalidFree ptr key) := by
  obtain ⟨free, hd⟩ := hk.divided
  obtain ⟨i, _, hi, hcell, _⟩ := hd.exists_cell hl
  have hfind : m.find? key ptr = none := by
    by_contra hf
    obtain ⟨h, hh, heq⟩ := hk.exists_holding hm (Option.isSome_iff_ne_none.mpr hf)
    exact hno h hh heq
  unfold deallocate
  simp only [hi, hcell, hm, FreeMap.remove, hfind, ne_eq, not_true_eq_false, ↓reduceIte]

/-- If a live allocation is the only one at its address, it can be moved to any address that can be
recorded, and then none is left at the old one. -/
theorem relocate_only (hk : Kept w) (hm : w.lifetimes.freeMap = some m) {old new key lock : Word}
    (hh : ⟨old, ⟨key, lock⟩⟩ ∈ w.held) (honly : ∀ h ∈ w.held, h.addr = old → h.lease = ⟨key, lock⟩)
    (hnew : isMarker new = false) :
    (w.lifetimes.relocate old new key).1 = .ok () ∧
      ∃ rest, w.held.Perm (⟨old, ⟨key, lock⟩⟩ :: rest) ∧
        (w.step (.relocate old new key)).held.Perm (⟨new, ⟨key, lock⟩⟩ :: rest) ∧
        ∀ h ∈ rest, h.addr ≠ old := by
  have hok : (w.lifetimes.relocate old new key).1 = .ok () :=
    (relocate_eq_ok_iff hm).mpr ⟨hnew, hk.contains hm hh⟩
  obtain ⟨lease, rest, _, hold, hmoved⟩ := move_perm ⟨_, hh, rfl, rfl⟩ new
  have hlease : lease = ⟨key, lock⟩ :=
    honly ⟨old, lease⟩ (hold.mem_iff.mpr (List.mem_cons_self ..)) rfl
  subst hlease
  have hnote : (w.step (.relocate old new key)).held = move old new key w.held := by
    rw [Watched.step, serve]
    cases hr : w.lifetimes.relocate old new key with
    | mk a l' =>
      rw [hr] at hok
      cases hok
      rfl
  obtain ⟨free, hd⟩ := hk.divided
  have hnodup : (⟨key, lock⟩ :: rest.map Holding.lease).Nodup :=
    (hold.map Holding.lease).nodup_iff.mp (List.Nodup.of_map _ hd.locks_nodup)
  refine ⟨hok, rest, hold, hnote ▸ hmoved, fun h hr haddr => ?_⟩
  have hlease := honly h (hold.mem_iff.mpr (List.mem_cons_of_mem _ hr)) haddr
  exact (List.nodup_cons.mp hnodup).1 (List.mem_map.mpr ⟨h, hr, hlease⟩)

end Kept

/-- A release with another key than zero succeeds for a live lease only; until one with key zero
takes a cell that no lease has, no two leases share a cell. -/
theorem release_needs_live_lease
    (hc : Lifetimes.create host lockEntries policy stackEntries freeMapEntries = .ok l)
    (rs : List Request) :
    let w := l.watched.after rs
    (∀ ptr key lock l', w.lifetimes.deallocate ptr key lock = .ok l' → key ≠ 0 →
      ⟨key, lock⟩ ∈ w.leases) ∧
    (lockEntries ≤ linkEnd → Runs.Always Watched.step Watched.Regular l.watched rs →
      (∀ ptr key lock, (∃ l', w.lifetimes.deallocate ptr key lock = .ok l') ↔
        (⟨key, lock⟩ ∈ w.leases ∨ key = 0 ∧ (w.lifetimes.heap.indexOf lock).isSome ∧
          lock ∉ w.leases.map Lease.lock) ∧
        ∀ m, w.lifetimes.freeMap = some m → m.contains key ptr = true) ∧
      (w.leases.map Lease.lock).Nodup ∧
      ∃ free, LockArena.Chain w.lifetimes.heap.links w.lifetimes.heap.freeHead free ∧
        free.Nodup ∧ (∀ i ∈ free, i < w.lifetimes.heap.bump) ∧
        ∀ key lock i, ⟨key, lock⟩ ∈ w.leases → w.lifetimes.heap.indexOf lock = some i →
          i ∉ free ∧ i < w.lifetimes.heap.bump) := by
  intro w
  refine ⟨fun ptr key lock l' hok hz => ?_, fun hsmall hr => ?_⟩
  · exact (watched_accounted hc rs).2 key lock hz (deallocate_eq_ok_iff.mp ⟨l', hok⟩).1
  · obtain ⟨free, hd⟩ := ((settled_create hsmall hc).after hr).divided
    refine ⟨fun ptr key lock => ?_, hd.locks_nodup, free, hd.chain, hd.free_nodup,
      fun i hi => hd.lt_bump hi, ?_⟩
    · rw [deallocate_eq_ok_iff, hd.observe_eq_some_iff]
    · intro key lock i hl hi
      obtain ⟨j, hlt, hj, _, hout⟩ := hd.exists_cell hl
      cases hi.symm.trans hj
      exact ⟨hout, hlt⟩

/-- The first release is for a cell that was never given out. That cell is then given out twice. -/
theorem release_with_key_zero_succeeds :
    ∃ l, Lifetimes.create .standard 8 .shared 4 none = .ok l ∧
      (∃ l', (l.watched.after [.allocate 0x1000]).lifetimes.deallocate 0x1000 0
        (heapLocksAddr + 8) = .ok l') ∧
      ⟨0, heapLocksAddr + 8⟩ ∉ (l.watched.after [.allocate 0x1000]).leases ∧
      ¬((l.watched.after [.allocate 0x1000, .deallocate 0x1000 0 (heapLocksAddr + 8),
        .allocate 0x2000, .allocate 0x3000]).leases.map Lease.lock).Nodup :=
  ⟨_, rfl, ⟨_, rfl⟩, by decide, by decide⟩

/-- A cell that was given back and given out again belongs to one lease. -/
theorem release_needs_live_lease_after_reuse :
    ∃ l, Lifetimes.create .standard 8 .shared 4 none = .ok l ∧ 8 ≤ linkEnd ∧
      Runs.Always Watched.step Watched.Regular l.watched
        [.allocate 0x1000, .deallocate 0x1000 2 heapLocksAddr, .allocate 0x2000,
          .allocate 0x3000] ∧
      ((l.watched.after [.allocate 0x1000, .deallocate 0x1000 2 heapLocksAddr, .allocate 0x2000,
        .allocate 0x3000]).leases.map Lease.lock).Nodup := by
  obtain ⟨l, hc, hr⟩ : ∃ l, Lifetimes.create .standard 8 .shared 4 none = .ok l ∧
      Runs.Always Watched.step Watched.Regular l.watched [.allocate 0x1000,
        .deallocate 0x1000 2 heapLocksAddr, .allocate 0x2000, .allocate 0x3000] := by
    refine ⟨_, rfl, ?_, ?_, ?_, ?_, trivial⟩ <;> intro ptr lock h <;> injection h
    next _ hkey _ => exact absurd hkey (by decide)
  exact ⟨l, hc, by decide, hr, ((release_needs_live_lease hc _).2 (by decide) hr).2.1⟩

/-- A release with a lease that fits its cell succeeds for its own address and for that of any other
live allocation which the key's probe sequence meets. -/
theorem release_succeeds_iff_own_or_met {n : Nat} (hsmall : lockEntries ≤ linkEnd)
    (hc : Lifetimes.create host lockEntries policy stackEntries (some n) = .ok l) {rs : List Request}
    (hr : Runs.Always Watched.step Watched.Faithful l.watched rs) :
    let w := l.watched.after rs
    ∃ m, w.lifetimes.freeMap = some m ∧ m.live = w.held.length ∧
      (∀ h ∈ w.held, m.contains h.lease.key h.addr = true) ∧
      (∀ ptr key lock, (∃ l', w.lifetimes.deallocate ptr key lock = .ok l') ↔
        ⟨ptr, ⟨key, lock⟩⟩ ∈ w.held ∨
          (⟨key, lock⟩ ∈ w.leases ∨ key = 0 ∧ (w.lifetimes.heap.indexOf lock).isSome ∧
            lock ∉ w.leases.map Lease.lock) ∧
          ∃ h ∈ w.held, h.addr = ptr ∧ h.lease ≠ ⟨key, lock⟩ ∧ m.Meets key ptr) ∧
      ∀ old new key, (w.lifetimes.relocate old new key).1 = .ok () ↔
        isMarker new = false ∧ ∃ h ∈ w.held, h.addr = old ∧
          (h.lease.key = key ∨ m.Meets key old) := by
  intro w
  have hk : Kept w := kept_after hsmall hc hr
  obtain ⟨m, hm⟩ : ∃ m, w.lifetimes.freeMap = some m := watched_freeMap hc rs
  have hlive : m.live = w.held.length := by
    rw [(hk.carries m hm).live, records, List.length_map]
  exact ⟨m, hm, hlive, fun h hh => hk.contains hm hh, fun ptr key lock => hk.deallocate_iff hm,
    fun old new key => hk.relocate_iff hm⟩

/-- The allocation that began at the first address was moved before the second was released. -/
theorem release_of_moved_succeeds :
    ∃ l, Lifetimes.create .standard 8 .shared 4 (some 8) = .ok l ∧ 8 ≤ linkEnd ∧
      Runs.Always Watched.step Watched.Faithful l.watched
        [.allocate 0x1000, .allocate 0x2000, .relocate 0x1000 0x3000 2,
          .deallocate 0x2000 3 (heapLocksAddr + 8)] ∧
      ∃ l', (l.watched.after [.allocate 0x1000, .allocate 0x2000, .relocate 0x1000 0x3000 2,
        .deallocate 0x2000 3 (heapLocksAddr + 8)]).lifetimes.deallocate 0x3000 2 heapLocksAddr
          = .ok l' := by
  obtain ⟨l, hc, hr, hm⟩ : ∃ l, Lifetimes.create .standard 8 .shared 4 (some 8) = .ok l ∧
      Runs.Always Watched.step Watched.Faithful l.watched [.allocate 0x1000, .allocate 0x2000,
        .relocate 0x1000 0x3000 2, .deallocate 0x2000 3 (heapLocksAddr + 8)] ∧
      ⟨0x3000, ⟨2, heapLocksAddr⟩⟩ ∈ (l.watched.after [.allocate 0x1000, .allocate 0x2000,
        .relocate 0x1000 0x3000 2, .deallocate 0x2000 3 (heapLocksAddr + 8)]).held :=
    ⟨_, rfl, by decide, by decide⟩
  obtain ⟨_, _, _, _, hrelease, _⟩ := release_succeeds_iff_own_or_met (by decide) hc hr
  exact ⟨l, hc, by decide, hr, (hrelease _ _ _).mpr (Or.inl hm)⟩

/-- The lease of one allocation releases with the address of another, whose record is lost. -/
theorem release_of_met_address_succeeds :
    ∃ l, Lifetimes.create .standard 8 .shared 4 (some 8) = .ok l ∧
      Runs.Always Watched.step Watched.Faithful l.watched [.allocate 0x1000, .allocate 0x2000] ∧
      (⟨0x2000, ⟨2, heapLocksAddr⟩⟩ : Holding) ∉
        (l.watched.after [.allocate 0x1000, .allocate 0x2000]).held ∧
      ⟨0x2000, ⟨3, heapLocksAddr + 8⟩⟩ ∈
        (l.watched.after [.allocate 0x1000, .allocate 0x2000]).held ∧
      ∃ l' m, (l.watched.after [.allocate 0x1000, .allocate 0x2000]).lifetimes.deallocate 0x2000 2
        heapLocksAddr = .ok l' ∧ l'.freeMap = some m ∧ m.contains 3 0x2000 = false :=
  ⟨_, rfl, by decide, by decide, by decide, _, _, rfl, rfl, by decide⟩

end PointerGuard.Lifetimes
