import PointerGuard.Proofs.Guard.Dereference
import PointerGuard.Proofs.Lifetimes.Releases
import PointerGuard.Proofs.Session.Requests

namespace PointerGuard

variable {host : Host}

theorem ShadowStack.storeSlot_of_lt {mode : Mode} {s : ShadowStack mode} {slot : Nat}
    (h : slot < s.frameSlots) (e : Metadata) : ∃ s', s.storeSlot slot e = .ok s' := by
  rw [storeSlot, slotOffset, if_pos h]
  exact ⟨_, rfl⟩

theorem ShadowStack.loadSlot_of_lt {mode : Mode} {s : ShadowStack mode} {slot : Nat}
    (h : slot < s.frameSlots) : ∃ e, s.loadSlot slot = .ok e := by
  rw [loadSlot, slotOffset, if_pos h]
  exact ⟨_, rfl⟩

namespace Guard

variable {mode : Mode} {g : Guard mode} {l : Lifetimes} {ptr key lock : Word}

theorem storeSlot_eq_ok {slot : Nat} (h : slot < g.shadow.frameSlots) (e : Metadata) :
    ((storeSlot slot e).run g).1 = .ok () := by
  obtain ⟨s, hs⟩ := g.shadow.storeSlot_of_lt h e
  rw [storeSlot, run_updateShadow_of_ok (f := (·.storeSlot slot e)) hs]

theorem deallocate_eq_ok_iff (hl : g.lifetimes = some l) :
    ((deallocate ptr key lock).run g).1 = .ok () ↔ ∃ l', l.deallocate ptr key lock = .ok l' := by
  rw [← quiet_eq_ok_iff]
  refine (perform_deallocate_eq_ok_iff hl).trans ?_
  rw [Lifetimes.serve]
  cases l.deallocate ptr key lock <;> simp

theorem run_relocate (hl : g.lifetimes = some l) (old new key : Word) :
    (relocate old new key).run g
      = ((l.relocate old new key).1, { g with lifetimes := some (l.relocate old new key).2 }) :=
  run_onLifetimes hl () (·.relocate old new key)

theorem run_preallocate_of_lazy (h : g.trie.policy = .lazy) (addr : Word) :
    (preallocate addr).run g = (.ok (), g) := by
  have hpre : g.trie.preallocate addr = (.ok (), g.trie) := by rw [Trie.preallocate, h]
  rw [run_preallocate_of_fst (congrArg Prod.fst hpre), hpre]

theorem copyMetadata_eq_ok_iff {dest src len : Word} {n : Nat} :
    ((copyMetadata dest src len).run g).1 = .ok n ↔
      (g.trie.copyMetadata dest src len).1 = .ok n := by
  have htrie : (onTrie (·.copyMetadata dest src len)).run g
      = ((g.trie.copyMetadata dest src len).1,
        { g with trie := (g.trie.copyMetadata dest src len).2 }) := rfl
  have htail (k : Nat) (g' : Guard mode) :
      ((do
        if 0 < k then count .metadataCopies
        return k : Guarded mode Nat).run g').1 = .ok k := by
    by_cases hk : 0 < k
    · rw [if_pos hk, Action.run_bind_of_ok (run_count ..)]
      rfl
    · rw [if_neg hk]
      rfl
  cases hr : (g.trie.copyMetadata dest src len).1 with
  | error v =>
    rw [hr] at htrie
    rw [copyMetadata, Action.run_bind_of_error htrie]
  | ok k =>
    rw [hr] at htrie
    rw [copyMetadata, Action.run_bind_of_ok htrie, htail]

theorem lifetimes_copyMetadata (dest src len : Word) :
    ((copyMetadata dest src len).run g).2.lifetimes = g.lifetimes := by
  rw [(causes_copyMetadata (W := fun _ => True) src (fun _ _ => trivial) g).lifetimes]
  exact Option.map_id' ..

end Guard

namespace Session

variable {g : Guard .combined} {l : Lifetimes} {m : FreeMap} {ptr size result : Word}
  {old : Metadata}

theorem dropped_eq_ok_iff (hl : g.lifetimes = some l) (hslots : 0 < g.shadow.frameSlots) :
    ((do
      Guard.storeNullReturn
      if size = 0 then Guard.deallocate ptr old.key old.lock : Guarded .combined Unit).run g).1
        = .ok () ↔ (size = 0 → ∃ l', l.deallocate ptr old.key old.lock = .ok l') := by
  obtain ⟨shadow, hs⟩ := g.shadow.storeSlot_of_lt hslots .unknown
  rw [Action.run_bind_of_ok (Guard.run_storeNullReturn_of_ok hs)]
  by_cases hsize : size = 0
  · rw [if_pos hsize, Guard.deallocate_eq_ok_iff (g := { g with shadow }) hl]
    exact ⟨fun h _ => h, fun h => h hsize⟩
  · rw [if_neg hsize]
    exact iff_of_true rfl fun h => absurd h hsize

theorem moved_eq_ok_iff (hl : g.lifetimes = some l) (hm : l.freeMap = some m)
    (hslots : 0 < g.shadow.frameSlots) (hlazy : g.trie.policy = .lazy) (e : Metadata) :
    ((do
      Guard.preallocate result
      let _ ← Guard.copyMetadata result ptr (keptBytes old size)
      Guard.relocate ptr result old.key
      Guard.storeReturn e : Guarded .combined Unit).run g).1 = .ok () ↔
      (∃ n, (g.trie.copyMetadata result ptr (keptBytes old size)).1 = .ok n) ∧
        isMarker result = false ∧ m.contains old.key ptr = true := by
  rw [Action.run_bind_of_ok (Guard.run_preallocate_of_lazy hlazy result),
    Action.run_bind_eq_ok_iff, ← Lifetimes.relocate_eq_ok_iff hm]
  simp only [Guard.copyMetadata_eq_ok_iff]
  have hl' := Guard.lifetimes_copyMetadata (g := g) result ptr (keptBytes old size)
  have hshadow := (Guard.spares_copyMetadata result ptr (keptBytes old size) g).1
  generalize ((Guard.copyMetadata result ptr (keptBytes old size)).run g).2 = g' at hl' hshadow ⊢
  have hrelocate := Guard.run_relocate (hl'.trans hl) ptr result old.key
  have htail : ((do
      Guard.relocate ptr result old.key
      Guard.storeReturn e : Guarded .combined Unit).run g').1 = .ok () ↔
      (l.relocate ptr result old.key).1 = .ok () := by
    rw [Action.run_bind_eq_ok_iff, hrelocate]
    constructor
    · rintro ⟨_, hok, _⟩
      exact hok
    · intro hok
      refine ⟨(), hok, Guard.storeSlot_eq_ok ?_ e⟩
      rw [← hshadow] at hslots
      exact hslots
  rw [htail]
  exact exists_and_right

theorem followResize_eq_ok_iff (hl : g.lifetimes = some l) (hm : l.freeMap = some m)
    (hslots : 0 < g.shadow.frameSlots) (hlazy : g.trie.policy = .lazy) :
    ((followResize ptr size result old).run g).1 = .ok () ↔
      if result = 0 then size = 0 → ∃ l', l.deallocate ptr old.key old.lock = .ok l'
      else ptr = result ∨
        (∃ n, (g.trie.copyMetadata result ptr (keptBytes old size)).1 = .ok n) ∧
          isMarker result = false ∧ m.contains old.key ptr = true := by
  unfold followResize
  by_cases hz : result = 0
  · rw [if_pos hz, if_pos hz]
    exact dropped_eq_ok_iff hl hslots
  · rw [if_neg hz, if_neg hz]
    by_cases hr : ptr = result
    · rw [if_neg (not_not.mpr hr)]
      exact iff_of_true (Guard.storeSlot_eq_ok hslots _) (Or.inl hr)
    · rw [if_pos hr, or_iff_right hr]
      exact moved_eq_ok_iff hl hm hslots hlazy _

variable {α β : Type} {s : Session}

/-- The call raises a violation, after which the process goes on. -/
def Raises (s : Session) (c : Call) : Prop :=
  (s.step c).reporter.suppressed ≠ s.reporter.suppressed

instance (s : Session) (c : Call) : Decidable (s.Raises c) :=
  inferInstanceAs (Decidable (_ ≠ _))

theorem run_map (act : InSession α) (f : α → β) (s : Session) :
    ((act >>= fun a => pure (f a)).run s).2 = (act.run s).2 := by
  cases hr : act.run s with
  | mk r s' =>
    cases r with
    | error e => rw [Action.run_bind_of_error hr]
    | ok a =>
      rw [Action.run_bind_of_ok hr]
      rfl

theorem withGuard_raises_iff [Inhabited α] (hp : s.reporter.policy ≠ .abort)
    (act : Guarded .combined α) :
    ((withGuard act).run s).2.reporter.suppressed ≠ s.reporter.suppressed ↔
      ¬∃ a, (act.run s.guard).1 = .ok a := by
  cases hr : act.run s.guard with
  | mk r g =>
    cases r with
    | ok a =>
      rw [run_withGuard_of_ok hr]
      simp
    | error v =>
      rw [run_withGuard_of_error hp hr]
      exact iff_of_true (Reporter.suppressed_raised_ne hp v) fun ⟨_, h⟩ => by cases h

theorem free_raises_iff (hp : s.reporter.policy ≠ .abort) (hl : s.guard.lifetimes = some l)
    (hs : s.guard.shadow.loadSlot 1 = .ok old) (hz : ptr ≠ 0) :
    s.Raises (.free ptr) ↔ ¬∃ l', l.deallocate ptr old.key old.lock = .ok l' := by
  have hload := Guard.run_loadSlot_of_ok hs
  have hstep : (s.step (.free ptr)) = ((free ptr).run s).2 := run_map (free ptr) Reply.freed s
  rw [Raises, hstep, free, if_neg hz, withGuard_raises_iff hp, Action.run_bind_of_ok hload,
    ← Guard.deallocate_eq_ok_iff hl]
  refine not_congr ⟨?_, fun h => ⟨true, ?_⟩⟩
  · rintro ⟨a, ha⟩
    obtain ⟨_, hok, _⟩ := Action.run_bind_eq_ok_iff.mp ha
    exact hok
  · exact Action.run_bind_eq_ok_iff.mpr ⟨(), h, rfl⟩

theorem realloc_raises_iff (hp : s.reporter.policy ≠ .abort)
    (hs : s.guard.shadow.loadSlot 1 = .ok old) (hz : ptr ≠ 0) :
    s.Raises (.realloc ptr size result) ↔
      ¬((followResize ptr size result old).run s.guard).1 = .ok () := by
  have hload : (withGuard (Guard.loadSlot 1)).run s = (.ok old, s) :=
    run_withGuard_of_ok (Guard.run_loadSlot_of_ok hs)
  have hstep : (s.step (.realloc ptr size result))
      = ((withGuard (followResize ptr size result old)).run s).2 := by
    refine (run_map (realloc ptr size result) Reply.word s).trans ?_
    rw [realloc, if_neg hz, Action.run_bind_of_ok hload]
    exact run_map _ (fun _ => result) s
  rw [Raises, hstep, withGuard_raises_iff hp]
  exact not_congr ⟨fun ⟨_, h⟩ => h, fun h => ⟨(), h⟩⟩

variable {start : Guard .combined} {r : Reporter}

/-- What every run keeps under the standard configuration: the trie is filled lazily, lifetimes and
free map are there, and the account of live allocations has every pair that a lock cell holds. -/
theorem standard_of_goesOn (hc : Guard.create host Config.standard = .ok start)
    (hl : start.lifetimes = some l) {cs : List Call}
    (hends : Runs.Always Session.step GoesOn ⟨start, r⟩ cs) :
    let s := Session.after ⟨start, r⟩ cs
    let w := l.watched.after (Session.requestsOf ⟨start, r⟩ cs)
    s.guard.trie.policy = .lazy ∧ s.guard.lifetimes = some w.lifetimes ∧
      (∃ m, w.lifetimes.freeMap = some m) ∧ w.lifetimes.Accounted w.held := by
  intro s w
  obtain ⟨_, heffect⟩ := after_makes hends
  obtain ⟨_, htrie, hlife⟩ := Guard.create_eq_ok hc
  obtain ⟨l', hl', hcl⟩ := hlife rfl
  cases hl.symm.trans hl'
  refine ⟨?_, ?_, Lifetimes.watched_freeMap hcl _, (Lifetimes.watched_accounted hcl _).2⟩
  · exact heffect.trie.policy.trans (congrArg Trie.policy (Trie.create_eq_ok htrie))
  · rw [heffect.lifetimes]
    show start.lifetimes.map _ = _
    rw [hl, Lifetimes.Watched.after_lifetimes]
    rfl

theorem standard_after (hc : Guard.create host Config.standard = .ok start)
    (hl : start.lifetimes = some l) (hp : r.policy ≠ .abort) (cs : List Call) :
    let s := Session.after ⟨start, r⟩ cs
    let w := l.watched.after (Session.requestsOf ⟨start, r⟩ cs)
    s.reporter.policy ≠ .abort ∧ s.guard.trie.policy = .lazy ∧
      s.guard.lifetimes = some w.lifetimes ∧ (∃ m, w.lifetimes.freeMap = some m) ∧
      w.lifetimes.Accounted w.held := by
  have hends := always_goesOn (s := ⟨start, r⟩) hp cs
  exact ⟨fun h => hp ((after_makes hends).1.symm.trans h), standard_of_goesOn hc hl hends⟩

/-- What a resize that moves the block can fail on. -/
theorem not_moved_iff {copy : Except Violation Nat} {recorded : Bool} (hz : result ≠ 0) :
    (¬(ptr = result ∨ (∃ n, copy = .ok n) ∧ isMarker result = false ∧ recorded = true)) ↔
      ptr ≠ result ∧ (recorded = false ∨ result = tombstone ∨ ∃ v, copy = .error v) := by
  have hmarker : isMarker result = false ↔ result ≠ tombstone :=
    FreeMap.isMarker_eq_false_iff.trans (and_iff_right hz)
  rw [not_or, hmarker]
  cases copy <;> cases recorded <;> simp

/-- A free checks the pair of slot 1, a resize only where it releases the block or moves it. -/
theorem reallocation_checks_released_or_moved (hc : Guard.create host Config.standard = .ok start)
    (hl : start.lifetimes = some l) (hp : r.policy ≠ .abort) (cs : List Call) :
    let s := Session.after ⟨start, r⟩ cs
    let w := l.watched.after (Session.requestsOf ⟨start, r⟩ cs)
    s.guard.lifetimes = some w.lifetimes ∧ ∃ m, w.lifetimes.freeMap = some m ∧
      (2 ≤ s.guard.shadow.frameSlots → ∃ old, s.guard.shadow.loadSlot 1 = .ok old ∧
        ∀ ptr, ptr ≠ 0 →
          (s.Raises (.free ptr) ↔
            w.lifetimes.heap.observe old.lock ≠ some old.key ∨ m.contains old.key ptr = false) ∧
          (old.key ≠ 0 → ⟨old.key, old.lock⟩ ∉ w.leases → s.Raises (.free ptr)) ∧
          ∀ size result, s.Raises (.realloc ptr size result) ↔
            if result = 0 then size = 0 ∧ s.Raises (.free ptr)
            else ptr ≠ result ∧ (m.contains old.key ptr = false ∨ result = tombstone ∨
              ∃ v, (s.guard.trie.copyMetadata result ptr (keptBytes old size)).1 = .error v)) := by
  intro s w
  obtain ⟨hpolicy, hlazy, hlife, ⟨m, hm⟩, hacc⟩ := standard_after hc hl hp cs
  refine ⟨hlife, m, hm, fun hslots => ?_⟩
  obtain ⟨old, hold⟩ := s.guard.shadow.loadSlot_of_lt (Nat.lt_of_succ_le hslots)
  refine ⟨old, hold, fun ptr hz => ?_⟩
  have hfree : s.Raises (.free ptr) ↔
      w.lifetimes.heap.observe old.lock ≠ some old.key ∨ m.contains old.key ptr = false := by
    have hrecorded : (∀ m', w.lifetimes.freeMap = some m' → m'.contains old.key ptr = true) ↔
        m.contains old.key ptr = true :=
      ⟨fun h => h m hm, fun h m' hm' => Option.some.inj (hm.symm.trans hm') ▸ h⟩
    rw [free_raises_iff hpolicy hlife hold hz, Lifetimes.deallocate_eq_ok_iff, hrecorded,
      not_and_or, Bool.not_eq_true]
  refine ⟨hfree, fun hkey hdead => hfree.mpr (Or.inl fun ho => hdead (hacc _ _ hkey ho)),
    fun size result => ?_⟩
  rw [realloc_raises_iff hpolicy hold hz,
    followResize_eq_ok_iff hlife hm (Nat.lt_of_lt_of_le Nat.zero_lt_two hslots) hlazy]
  split
  next => rw [free_raises_iff hpolicy hlife hold hz, Classical.not_imp]
  next hr => rw [not_moved_iff hr]

/-- A block that was freed is moved by a resize. -/
theorem reallocation_checks_released_or_moved_after_free :
    ∃ (start : Guard .combined) (l : Lifetimes), Guard.create .standard Config.standard = .ok start ∧
      start.lifetimes = some l ∧
      let r : Reporter := { policy := .silent, exitCode := 73, executable := "app", backtrace := "" }
      let s := Session.after ⟨start, r⟩ [.pushFrame 2, .malloc 0x20 0x500000000000,
        .storeSlot 1 ⟨0x500000000000, 0x500000000020, 2, heapLocksAddr⟩, .free 0x500000000000]
      r.policy ≠ .abort ∧ 2 ≤ s.guard.shadow.frameSlots ∧
        s.Raises (.realloc 0x500000000000 0x40 0x500100000000) := by
  have hc : (Guard.create .standard Config.standard : Except _ (Guard .combined)) = .ok _ := rfl
  obtain ⟨_, m, hm, hframe⟩ := reallocation_checks_released_or_moved hc rfl
    (r := { policy := .silent, exitCode := 73, executable := "app", backtrace := "" })
    (by decide) [.pushFrame 2, .malloc 0x20 0x500000000000,
      .storeSlot 1 ⟨0x500000000000, 0x500000000020, 2, heapLocksAddr⟩, .free 0x500000000000]
  refine ⟨_, _, hc, rfl, by decide, by decide, ?_⟩
  obtain ⟨old, hold, hcalls⟩ := hframe (by decide)
  cases hm
  cases hold
  exact ((hcalls _ (by decide)).2.2 _ _).mpr ⟨by decide, Or.inl (by decide)⟩

/-- The caller passes metadata of another block, which was freed. -/
theorem reallocation_in_place_checks_nothing :
    ∃ (start : Guard .combined) (l : Lifetimes), Guard.create .standard Config.standard = .ok start ∧
      start.lifetimes = some l ∧
      let r : Reporter := { policy := .silent, exitCode := 73, executable := "app", backtrace := "" }
      let calls := [.pushFrame 2, .malloc 0x20 0x500000000000, .malloc 0x20 0x500100000000,
        .storeSlot 1 ⟨0x500100000000, 0x500100000020, 3, heapLocksAddr + 8⟩,
        .free 0x500100000000]
      let s := Session.after ⟨start, r⟩ calls
      let w := l.watched.after (Session.requestsOf ⟨start, r⟩ calls)
      2 ≤ s.guard.shadow.frameSlots ∧
        s.guard.shadow.loadSlot 1
          = .ok ⟨0x500100000000, 0x500100000020, 3, heapLocksAddr + 8⟩ ∧
        ⟨3, heapLocksAddr + 8⟩ ∉ w.leases ∧ s.Raises (.free 0x500000000000) ∧
        ¬s.Raises (.realloc 0x500000000000 0x20 0x500000000000) ∧
        ¬s.Raises (.realloc 0x500000000000 0x20 0) :=
  ⟨_, _, rfl, rfl, by decide, rfl, by decide, by decide, by decide, by decide⟩

end Session

end PointerGuard
