import PointerGuard.Proofs.Guard.Registration
import PointerGuard.Proofs.Session.Resize

namespace PointerGuard

variable {host : Host}

theorem clampWord_toNat (w : Word) : clampWord w.toNat = w := by
  have h := w.toNat_lt
  rw [← UInt64.toNat_inj, toNat_clampWord]
  omega

theorem Action.run_bind_congr {ε σ α β : Type} {act act' : Action ε σ α} {s : σ}
    (h : act.run s = act'.run s) (next : α → Action ε σ β) :
    (act >>= next).run s = (act' >>= next).run s := by
  cases hr : act'.run s with
  | mk r s' =>
    cases r with
    | error e => rw [Action.run_bind_of_error (h.trans hr), Action.run_bind_of_error hr]
    | ok a => rw [Action.run_bind_of_ok (h.trans hr), Action.run_bind_of_ok hr]

theorem Action.run_bind_pure {ε σ α β γ : Type} (act : Action ε σ α) (b : β) (f : β → γ) (s : σ) :
    ((act >>= fun _ => pure b) >>= fun b => pure (f b)).run s
      = (act >>= fun _ => pure (f b)).run s := by
  cases hr : act.run s with
  | mk r s' =>
    cases r with
    | error e =>
      rw [Action.run_bind_of_error (Action.run_bind_of_error hr), Action.run_bind_of_error hr]
    | ok a =>
      have hfirst : (act >>= fun _ => (pure b : Action ε σ β)).run s = (.ok b, s') :=
        Action.run_bind_of_ok hr
      rw [Action.run_bind_of_ok hfirst, Action.run_bind_of_ok hr, Action.run_pure]

/-- The bytes and the block of a call that hands out a fresh one. -/
def Call.fresh : Call → Option (Nat × Word)
  | .malloc size result => some (size.toNat, result)
  | .calloc count size result => some (count.toNat * size.toNat, result)
  | .realloc ptr size result => if ptr = 0 then some (size.toNat, result) else none
  | _ => none

namespace Lifetimes

variable {l l' : Lifetimes} {ptr : Word} {lease : Lease}

/-- A relocation changes no lock cell. -/
theorem check_relocate (old new key other lock : Word) :
    (l.relocate old new key).2.check other lock = l.check other lock := by
  have hc := change_relocate l old new key
  have hstep : (l.serve (.relocate old new key)).2 = (l.relocate old new key).2 :=
    l.step_relocate old new key
  rw [hstep] at hc
  generalize (l.relocate old new key).2 = l' at hc ⊢
  generalize (l.serve (.relocate old new key)).1 = answer at hc
  cases hc with
  | refused => rfl
  | moved => rfl
  | restored => rfl

end Lifetimes

namespace Guard

variable {g : Guard .combined} {l : Lifetimes} {ptr size : Word}

theorem run_allocate_of_lazy (hl : g.lifetimes = some l) (hlazy : g.trie.policy = .lazy)
    (ptr : Word) : (allocate ptr).run g = ((l.allocate ptr).1, { g with
      lifetimes := some (l.allocate ptr).2
      metrics := g.metrics.bump .heapAllocations }) := by
  have hpre : g.trie.preallocate ptr = (.ok (), g.trie) := by rw [Trie.preallocate, hlazy]
  rw [run_allocate_of_ok hl (congrArg Prod.fst hpre), hpre]

theorem run_allocateObject_of_ok (hl : g.lifetimes = some l) (hlazy : g.trie.policy = .lazy)
    {lease : Lease} (ha : (l.allocate ptr).1 = .ok lease) (hfit : ptr.toNat + size.toNat < 2 ^ 64) :
    (allocateObject ptr size).run g = (.ok ⟨ptr, ptr + size, lease.key, lease.lock⟩, { g with
      lifetimes := some (l.allocate ptr).2
      metrics := g.metrics.bump .heapAllocations }) := by
  have hallocate := run_allocate_of_lazy hl hlazy ptr
  rw [ha] at hallocate
  exact run_allocateObject_of_fit hallocate hfit

/-- A heap object is registered only with a lease, and if it ends within the words. -/
theorem lease_of_allocateObject (hl : g.lifetimes = some l) (hlazy : g.trie.policy = .lazy)
    {e : Metadata} (h : ((allocateObject ptr size).run g).1 = .ok e) :
    (∃ lease, (l.allocate ptr).1 = .ok lease) ∧ ptr.toNat + size.toNat < 2 ^ 64 := by
  obtain ⟨lease, hlease, hrest⟩ := Action.run_bind_eq_ok_iff.mp h
  obtain ⟨bound, hbound, _⟩ := Action.run_bind_eq_ok_iff.mp hrest
  rw [run_allocate_of_lazy hl hlazy] at hlease
  exact ⟨⟨lease, hlease⟩, (checkedAdd_eq_some_iff.mp (orFail_eq_ok hbound)).1⟩

/-- A step that fails leaves the frames as they are. -/
def Careful {α : Type} (act : Guarded .combined α) : Prop :=
  ∀ g v, (act.run g).1 = .error v → (act.run g).2.shadow = g.shadow

theorem careful_storeSlot (slot : Nat) (e : Metadata) : Careful (storeSlot slot e) := by
  intro g v h
  cases hs : g.shadow.storeSlot slot e with
  | error u =>
    rw [storeSlot, run_updateShadow_of_error (f := (·.storeSlot slot e)) hs]
  | ok shadow =>
    rw [storeSlot, run_updateShadow_of_ok (f := (·.storeSlot slot e)) hs] at h
    cases h

theorem Spares.careful_bind {α β : Type} {act : Guarded .combined α}
    {next : α → Guarded .combined β} (h : Spares act) (hn : ∀ a, Careful (next a)) :
    Careful (act >>= next) := by
  intro g v hfail
  have hshadow := (h g).1
  cases hr : act.run g with
  | mk answer g₁ =>
    rw [hr] at hshadow
    cases answer with
    | error u =>
      rw [Action.run_bind_of_error hr]
      exact hshadow
    | ok a =>
      rw [Action.run_bind_of_ok hr] at hfail ⊢
      exact (hn a g₁ v hfail).trans hshadow

end Guard

namespace Session

variable {α : Type} {s : Session} {g : Guard .combined} {l : Lifetimes}
  {block ptr size result : Word} {old : Metadata} {c : Call}

/-- What a call that hands out a fresh block does to the guard. -/
def register (block size : Word) : Guarded .combined Unit :=
  if block = 0 then Guard.storeNullReturn
  else do
    let e ← Guard.allocateObject block size
    Guard.storeReturn e

theorem careful_register (block size : Word) : Guard.Careful (register block size) := by
  unfold register
  split
  next => exact Guard.careful_storeSlot 0 .unknown
  next => exact (Guard.spares_allocateObject block size).careful_bind fun e =>
    Guard.careful_storeSlot 0 e

theorem careful_followResize (hz : result ≠ 0) (ptr size : Word) (old : Metadata) :
    Guard.Careful (followResize ptr size result old) := by
  unfold followResize
  rw [if_neg hz]
  split
  next =>
    refine Guard.Spares.careful_bind (Guard.Spares.onTrie _) fun _ => ?_
    refine Guard.Spares.careful_bind (Guard.spares_copyMetadata _ _ _) fun _ => ?_
    refine Guard.Spares.careful_bind (Guard.Spares.onLifetimes _ _) fun _ => ?_
    exact Guard.careful_storeSlot 0 _
  next => exact Guard.careful_storeSlot 0 _

theorem register_null (hslots : 0 < g.shadow.frameSlots) (size : Word) :
    ∃ g', (register 0 size).run g = (.ok (), g') ∧ g'.shadow.loadSlot 0 = .ok .unknown := by
  obtain ⟨shadow, hs⟩ := g.shadow.storeSlot_of_lt hslots .unknown
  exact ⟨_, Guard.run_storeNullReturn_of_ok hs, ShadowStack.loadSlot_of_store hs⟩

theorem followResize_null (hslots : 0 < g.shadow.frameSlots) (ptr size : Word) (old : Metadata) :
    ((followResize ptr size 0 old).run g).2.shadow.loadSlot 0 = .ok .unknown := by
  obtain ⟨shadow, hload, hrun⟩ := run_followResize_of_null hslots ptr size old
  have hspares : Guard.Spares
      (if size = 0 then Guard.deallocate ptr old.key old.lock else pure () :
        Guarded .combined Unit) := by
    split
    next => exact (Guard.Spares.onLifetimes _ _).bind fun _ => .count _
    next => exact .pure ()
  rw [hrun, (hspares _).1]
  exact hload

/-- A resize that moves the block and comes to its end has copied the entries and moved the
record. -/
theorem moved_of_ok (hl : g.lifetimes = some l) (hlazy : g.trie.policy = .lazy) (hz : result ≠ 0)
    (hm : ptr ≠ result) (h : ((followResize ptr size result old).run g).1 = .ok ()) :
    (∃ n, (g.trie.copyMetadata result ptr (keptBytes old size)).1 = .ok n) ∧
      (l.relocate ptr result old.key).1 = .ok () := by
  unfold followResize at h
  rw [if_neg hz, if_pos hm, Action.run_bind_of_ok (Guard.run_preallocate_of_lazy hlazy result)] at h
  obtain ⟨n, hcopy, hrest⟩ := Action.run_bind_eq_ok_iff.mp h
  obtain ⟨_, hmove, _⟩ := Action.run_bind_eq_ok_iff.mp hrest
  have hl' := Guard.lifetimes_copyMetadata (g := g) result ptr (keptBytes old size)
  rw [Guard.run_relocate (hl'.trans hl)] at hmove
  exact ⟨⟨n, Guard.copyMetadata_eq_ok_iff.mp hcopy⟩, hmove⟩

/-- A resize that comes to its end publishes the pair it was given, and changes no lock cell. -/
theorem followResize_of_ok (hl : g.lifetimes = some l) (hlazy : g.trie.policy = .lazy)
    (hslots : 0 < g.shadow.frameSlots) (hp : ptr ≠ 0) (hz : result ≠ 0)
    (h : ((followResize ptr size result old).run g).1 = .ok ()) :
    ∃ g' l', (followResize ptr size result old).run g = (.ok (), g') ∧
      g'.shadow.loadSlot 0 = .ok ⟨result, saturatingAdd result size, old.key, old.lock⟩ ∧
      g'.lifetimes = some l' ∧ ∀ key lock, l'.check key lock = l.check key lock := by
  by_cases hm : ptr = result
  · subst hm
    obtain ⟨shadow, hload, hrun⟩ := run_followResize_of_stay hslots hp size old
    exact ⟨_, l, hrun, hload, hl, fun _ _ => rfl⟩
  · obtain ⟨⟨n, hcopy⟩, hmove⟩ := moved_of_ok hl hlazy hz hm h
    obtain ⟨g', hrun, hload, hlife, _⟩ :=
      run_followResize_of_move hl hslots hlazy hz hm hcopy hmove
    exact ⟨g', _, hrun, hload, hlife, Lifetimes.check_relocate ptr result old.key⟩

theorem register_of_ok (hl : g.lifetimes = some l) (hlazy : g.trie.policy = .lazy)
    (hslots : 0 < g.shadow.frameSlots) (hz : block ≠ 0) {lease : Lease}
    (ha : (l.allocate block).1 = .ok lease) (hfit : block.toNat + size.toNat < 2 ^ 64) :
    ∃ g', (register block size).run g = (.ok (), g') ∧
      g'.shadow.loadSlot 0 = .ok ⟨block, block + size, lease.key, lease.lock⟩ ∧
      g'.lifetimes = some (l.allocate block).2 := by
  obtain ⟨shadow, hs⟩ :=
    g.shadow.storeSlot_of_lt hslots ⟨block, block + size, lease.key, lease.lock⟩
  let registered : Guard .combined := { g with
    lifetimes := some (l.allocate block).2
    metrics := g.metrics.bump .heapAllocations }
  refine ⟨{ registered with shadow }, ?_, ShadowStack.loadSlot_of_store hs, rfl⟩
  rw [register, if_neg hz, Action.run_bind_of_ok (Guard.run_allocateObject_of_ok hl hlazy ha hfit)]
  exact Guard.run_storeReturn_of_ok hs

theorem register_eq_ok_iff (hl : g.lifetimes = some l) (hlazy : g.trie.policy = .lazy)
    (hslots : 0 < g.shadow.frameSlots) (hz : block ≠ 0) :
    ((register block size).run g).1 = .ok () ↔
      (∃ lease, (l.allocate block).1 = .ok lease) ∧ block.toNat + size.toNat < 2 ^ 64 := by
  constructor
  · intro h
    rw [register, if_neg hz] at h
    obtain ⟨e, hobject, _⟩ := Action.run_bind_eq_ok_iff.mp h
    exact Guard.lease_of_allocateObject hl hlazy hobject
  · rintro ⟨⟨lease, ha⟩, hfit⟩
    obtain ⟨g', hrun, _⟩ := register_of_ok hl hlazy hslots hz ha hfit
    rw [hrun]

/-- The call answers this block and publishes metadata of it, or reports a violation and leaves the
frames as they were. -/
structure Returns (s : Session) (c : Call) (result : Word)
    (right : Guard .combined → Metadata → Prop) : Prop where
  reply : ((answer c).run s).1 = .ok (.word result)
  null : result = 0 → (s.step c).guard.shadow.loadSlot 0 = .ok .unknown
  raised : result ≠ 0 → s.Raises c → (s.step c).guard.shadow = s.guard.shadow
  quiet : result ≠ 0 → ¬s.Raises c →
    ∃ e, (s.step c).guard.shadow.loadSlot 0 = .ok e ∧ right (s.step c).guard e

/-- A call that does one step of the guard and then answers the block of the allocator. -/
theorem step_of_wrapper (hp : s.reporter.policy ≠ .abort) {act : Guarded .combined Unit}
    (h : (answer c).run s = (withGuard act >>= fun _ => pure (Reply.word result)).run s) :
    ((answer c).run s).1 = .ok (.word result) ∧ (s.step c).guard = (act.run s.guard).2 ∧
      (s.Raises c ↔ ∃ v, (act.run s.guard).1 = .error v) := by
  rw [Raises, Session.step, h]
  cases hr : act.run s.guard with
  | mk answer g' =>
    cases answer with
    | ok _ =>
      rw [Action.run_bind_of_ok (run_withGuard_of_ok hr)]
      exact ⟨rfl, rfl, by simp⟩
    | error v =>
      rw [Action.run_bind_of_ok (run_withGuard_of_error hp hr)]
      exact ⟨rfl, rfl, iff_of_true (Reporter.suppressed_raised_ne hp v) ⟨v, rfl⟩⟩

/-- What such a call returns, from what its step does for null, on a failure and on success. -/
theorem returns_of_wrapper (hp : s.reporter.policy ≠ .abort) {act : Guarded .combined Unit}
    {right : Guard .combined → Metadata → Prop}
    (h : (answer c).run s = (withGuard act >>= fun _ => pure (Reply.word result)).run s)
    (hnull : result = 0 → (act.run s.guard).2.shadow.loadSlot 0 = .ok .unknown)
    (hfails : result ≠ 0 → Guard.Careful act)
    (hends : result ≠ 0 → (act.run s.guard).1 = .ok () →
      ∃ e, (act.run s.guard).2.shadow.loadSlot 0 = .ok e ∧ right (act.run s.guard).2 e) :
    s.Returns c result right := by
  obtain ⟨hreply, hguard, hraises⟩ := step_of_wrapper hp h
  refine ⟨hreply, ?_, ?_, ?_⟩ <;> rw [hguard]
  · exact hnull
  · intro hz hraised
    obtain ⟨v, hv⟩ := hraises.mp hraised
    exact hfails hz s.guard v hv
  · intro hz hquiet
    rw [hraises, exists_error_iff, not_not] at hquiet
    obtain ⟨_, hok⟩ := hquiet
    exact hends hz hok

theorem answer_fresh {bytes : Nat} (h : c.fresh = some (bytes, result)) :
    (answer c).run s
      = (withGuard (register result (clampWord bytes)) >>= fun _ =>
          pure (Reply.word result)).run s := by
  have hmalloc (size block : Word) : (malloc size block >>= fun b => pure (Reply.word b)).run s
      = (withGuard (register block size) >>= fun _ => pure (Reply.word block)).run s :=
    Action.run_bind_pure (withGuard (register block size)) block Reply.word s
  cases c with
  | malloc size block =>
    cases h
    rw [clampWord_toNat]
    exact hmalloc size result
  | calloc count size block =>
    cases h
    exact hmalloc (saturatingMul count size) result
  | realloc ptr size block =>
    by_cases hz : ptr = 0
    · rw [Call.fresh, if_pos hz] at h
      cases h
      have hrealloc : realloc ptr size result = malloc size result := if_pos hz
      rw [clampWord_toNat, ← hmalloc, ← hrealloc]
      rfl
    · rw [Call.fresh, if_neg hz] at h
      cases h
  | _ => cases h

theorem answer_resize (hz : ptr ≠ 0) (hs : s.guard.shadow.loadSlot 1 = .ok old)
    (size result : Word) :
    (answer (.realloc ptr size result)).run s
      = (withGuard (followResize ptr size result old) >>= fun _ =>
          pure (Reply.word result)).run s := by
  have hload : (withGuard (Guard.loadSlot 1)).run s = (.ok old, s) :=
    run_withGuard_of_ok (Guard.run_loadSlot_of_ok hs)
  have hrealloc : (realloc ptr size result).run s
      = (withGuard (followResize ptr size result old) >>= fun _ => pure result).run s := by
    rw [realloc, if_neg hz, Action.run_bind_of_ok hload]
  have hanswer : answer (.realloc ptr size result)
      = (realloc ptr size result >>= fun block => pure (Reply.word block)) := rfl
  rw [hanswer, Action.run_bind_congr hrealloc, Action.run_bind_pure]

/-- A call that hands out a fresh block, and when it raises a violation. -/
theorem returns_fresh (hp : s.reporter.policy ≠ .abort) (hl : s.guard.lifetimes = some l)
    (hw : l.WellFormed) (hlazy : s.guard.trie.policy = .lazy)
    (hslots : 0 < s.guard.shadow.frameSlots) {bytes : Nat} (h : c.fresh = some (bytes, result)) :
    (s.Returns c result fun g e => e.base = result ∧ e.bound.toNat = result.toNat + bytes ∧
      ((Guard.checkTemporal e.key e.lock).run g).1 = .ok ()) ∧
    (s.Raises c ↔ result ≠ 0 ∧
      ((∃ v, (l.allocate result).1 = .error v) ∨ 2 ^ 64 ≤ result.toNat + bytes)) := by
  -- No block but null has room for as many bytes as there are words, so clamping hides no overflow.
  have hclamp (hz : result ≠ 0) : result.toNat + (clampWord bytes).toNat < 2 ^ 64 ↔
      result.toNat + bytes < 2 ^ 64 := by
    have hpos : result.toNat ≠ 0 := fun h => hz (UInt64.toNat_inj.mp h)
    rw [toNat_clampWord]
    omega
  have hok (hz : result ≠ 0) : ((register result (clampWord bytes)).run s.guard).1 = .ok () ↔
      (∃ lease, (l.allocate result).1 = .ok lease) ∧ result.toNat + bytes < 2 ^ 64 :=
    (register_eq_ok_iff hl hlazy hslots hz).trans (and_congr_right' (hclamp hz))
  constructor
  · refine returns_of_wrapper hp (answer_fresh h) ?_ (fun _ => careful_register _ _) ?_
    · rintro rfl
      obtain ⟨g', hrun, hload⟩ := register_null hslots (clampWord bytes)
      rw [hrun]
      exact hload
    · intro hz hends
      obtain ⟨⟨lease, ha⟩, hfit⟩ := (hok hz).mp hends
      obtain ⟨g', hrun, hload, hlife⟩ :=
        register_of_ok hl hlazy hslots hz ha ((hclamp hz).mpr hfit)
      have hbound : (result + clampWord bytes).toNat = result.toNat + bytes := by
        rw [UInt64.toNat_add, Nat.mod_eq_of_lt ((hclamp hz).mpr hfit), toNat_clampWord]
        omega
      rw [hrun]
      exact ⟨_, hload, rfl, hbound,
        (Guard.checkTemporal_eq_ok_iff hlife).mpr (Or.inr (hw.check_of_allocate ha))⟩
  · rw [(step_of_wrapper hp (answer_fresh h)).2.2]
    by_cases hz : result = 0
    · subst hz
      obtain ⟨g', hrun, _⟩ := register_null hslots (clampWord bytes)
      rw [hrun]
      simp
    · rw [and_iff_right hz, exists_error_iff, exists_error_iff, ← Nat.not_lt, ← not_and_or,
        ← hok hz]
      exact not_congr ⟨fun ⟨_, h⟩ => h, fun h => ⟨(), h⟩⟩

/-- A call that resizes a block. The pair that it publishes is the one in slot 1, which passes its
check exactly if it did before. -/
theorem returns_resize (hp : s.reporter.policy ≠ .abort) (hl : s.guard.lifetimes = some l)
    (hlazy : s.guard.trie.policy = .lazy) (hslots : 0 < s.guard.shadow.frameSlots) (hz : ptr ≠ 0)
    (hs : s.guard.shadow.loadSlot 1 = .ok old) (size result : Word) :
    s.Returns (.realloc ptr size result) result fun g e =>
      e = ⟨result, saturatingAdd result size, old.key, old.lock⟩ ∧
      (((Guard.checkTemporal old.key old.lock).run g).1 = .ok () ↔
        ((Guard.checkTemporal old.key old.lock).run s.guard).1 = .ok ()) := by
  refine returns_of_wrapper hp (answer_resize hz hs size result) ?_
    (fun hr => careful_followResize hr ptr size old) ?_
  · rintro rfl
    exact followResize_null hslots ptr size old
  · intro hr hends
    obtain ⟨g', l', hrun, hload, hlife, hcheck⟩ :=
      followResize_of_ok hl hlazy hslots hz hr hends
    have hconfig := (effect_followResize s.guard ptr size result old).config
    rw [hrun] at hconfig
    rw [hrun]
    refine ⟨_, hload, rfl, ?_⟩
    rw [Guard.checkTemporal_eq_ok_iff hl, Guard.checkTemporal_eq_ok_iff hlife, hconfig, hcheck]

variable {start : Guard .combined} {r : Reporter}

/-- Every allocator function answers the block of the allocator, and describes it in the return slot
unless it raises a violation. -/
theorem return_slot_describes_block_unless_raised (hc : Guard.create host Config.standard = .ok start)
    (hl : start.lifetimes = some l) (hp : r.policy ≠ .abort) (cs : List Call) :
    let s := Session.after ⟨start, r⟩ cs
    let w := l.after (Session.requestsOf ⟨start, r⟩ cs)
    2 ≤ s.guard.shadow.frameSlots →
      (∀ c bytes result, c.fresh = some (bytes, result) →
        (s.Returns c result fun g e => e.base = result ∧ e.bound.toNat = result.toNat + bytes ∧
          ((Guard.checkTemporal e.key e.lock).run g).1 = .ok ()) ∧
        (s.Raises c ↔ result ≠ 0 ∧
          ((∃ v, (w.allocate result).1 = .error v) ∨ 2 ^ 64 ≤ result.toNat + bytes))) ∧
      ∃ old, s.guard.shadow.loadSlot 1 = .ok old ∧ ∀ ptr, ptr ≠ 0 → ∀ size result,
        s.Returns (.realloc ptr size result) result fun g e =>
          e = ⟨result, saturatingAdd result size, old.key, old.lock⟩ ∧
          (((Guard.checkTemporal old.key old.lock).run g).1 = .ok () ↔
            ((Guard.checkTemporal old.key old.lock).run s.guard).1 = .ok ()) := by
  intro s w hslots
  obtain ⟨hpolicy, hlazy, hlife, _⟩ := standard_after hc hl hp cs
  rw [Lifetimes.Watched.after_lifetimes] at hlife
  obtain ⟨hvalid, _, hcreate⟩ := Guard.create_eq_ok hc
  obtain ⟨l', hl', hcl⟩ := hcreate rfl
  cases hl.symm.trans hl'
  have hw : w.WellFormed :=
    Lifetimes.wellFormed_after (Lifetimes.wellFormed_create hcl (by decide)) _
  have hpos : 0 < s.guard.shadow.frameSlots := Nat.lt_of_lt_of_le Nat.zero_lt_two hslots
  obtain ⟨old, hold⟩ := s.guard.shadow.loadSlot_of_lt (Nat.lt_of_succ_le hslots)
  exact ⟨fun c bytes result h => returns_fresh hpolicy hlife hw hlazy hpos h, old, hold,
    fun ptr hz => returns_resize hpolicy hlife hlazy hpos hz hold⟩

/-- A block is handed out, and an older one grows and moves. -/
theorem return_slot_describes_moved_block :
    ∃ start : Guard .combined, Guard.create .standard Config.standard = .ok start ∧
      let r : Reporter := { policy := .silent, exitCode := 73, executable := "app", backtrace := "" }
      let s := Session.after ⟨start, r⟩ [.pushFrame 2, .malloc 0x20 0x500000000000,
        .storeSlot 1 ⟨0x500000000000, 0x500000000020, 2, heapLocksAddr⟩]
      let fresh := s.step (.calloc 2 8 0x500100000000)
      let moved := s.step (.realloc 0x500000000000 0x40 0x500100000000)
      r.policy ≠ .abort ∧ 2 ≤ s.guard.shadow.frameSlots ∧
        (∃ e, fresh.guard.shadow.loadSlot 0 = .ok e ∧ e.base = 0x500100000000 ∧
          e.bound.toNat = 0x500100000010 ∧
          ((Guard.checkTemporal e.key e.lock).run fresh.guard).1 = .ok ()) ∧
        moved.guard.shadow.loadSlot 0
          = .ok ⟨0x500100000000, 0x500100000040, 2, heapLocksAddr⟩ ∧
        ((Guard.checkTemporal 2 heapLocksAddr).run moved.guard).1 = .ok () := by
  have hc : (Guard.create .standard Config.standard : Except _ (Guard .combined)) = .ok _ := rfl
  obtain ⟨hfresh, old, hold, hmoved⟩ := return_slot_describes_block_unless_raised hc rfl
    (r := { policy := .silent, exitCode := 73, executable := "app", backtrace := "" })
    (by decide) [.pushFrame 2, .malloc 0x20 0x500000000000,
      .storeSlot 1 ⟨0x500000000000, 0x500000000020, 2, heapLocksAddr⟩] (by decide)
  obtain ⟨hcalloc, _⟩ := hfresh (.calloc 2 8 0x500100000000) 16 0x500100000000 rfl
  have hrealloc := hmoved 0x500000000000 (by decide) 0x40 0x500100000000
  cases hold
  have hslot := hcalloc.quiet (by decide) (by decide)
  obtain ⟨_, hload, rfl, hpasses⟩ := hrealloc.quiet (by decide) (by decide)
  exact ⟨_, hc, by decide, by decide, hslot, hload, hpasses.mpr (by decide)⟩

/-- The caller passes no metadata with the block, so the resize raises a violation, and the return
slot still describes the block of an earlier call. -/
theorem return_slot_shows_older_block :
    ∃ start : Guard .combined, Guard.create .standard Config.standard = .ok start ∧
      let r : Reporter := { policy := .silent, exitCode := 73, executable := "app", backtrace := "" }
      let s := Session.after ⟨start, r⟩ [.pushFrame 2, .malloc 0x20 0x500000000000]
      let c := Call.realloc 0x500000000000 0x40 0x500100000000
      r.policy ≠ .abort ∧ 2 ≤ s.guard.shadow.frameSlots ∧ s.Raises c ∧
        ((answer c).run s).1 = .ok (.word 0x500100000000) ∧
        (s.step c).guard.shadow.loadSlot 0
          = .ok ⟨0x500000000000, 0x500000000020, 2, heapLocksAddr⟩ :=
  ⟨_, rfl, by decide, by decide, by decide, by decide, by decide⟩

end Session

end PointerGuard
