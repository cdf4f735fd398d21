import PointerGuard.Proofs.Guard.Lockstep

namespace PointerGuard.Guard

variable {host : Host}

open PointerGuard.Action (Lockstep)

variable {mode : Mode} {reach : Nat} {S : Finset Nat} {g g' : Guard mode}

/-- The guards are the same but for their tries and for settings that no operation reads. -/
structure Same (g g' : Guard mode) : Prop where
  leniency : g.config.leniency = g'.config.leniency
  stackLockPolicy : g.config.stackLockPolicy = g'.config.stackLockPolicy
  shadow : g.shadow = g'.shadow
  proxies : g.proxies = g'.proxies
  lifetimes : g.lifetimes = g'.lifetimes
  metrics : g.metrics = g'.metrics

/-- `g` loads what `g'` does, and has tables for no other segments. -/
abbrev Follows (reach : Nat) (S : Finset Nat) (g g' : Guard mode) : Prop :=
  Alongside id reach S Same g g'

/-- What the two policies answer to an operation: the same, except that under the eager policy more
segments may be installed, and that the texts differ. -/
def Agree : Operation → Except Violation Answer → Except Violation Answer → Prop
  | .isInstalled _, r, r' => ∃ b b', r = .ok (.flag b) ∧ r' = .ok (.flag b') ∧ (b = true → b' = true)
  | .snapshot, r, r' => ∃ s s', r = .ok (.snapshot s) ∧ r' = .ok (.snapshot s') ∧
      s.metrics = s'.metrics ∧ s.secondaryTables ≤ s'.secondaryTables
  | .describe, r, r' => ∃ t t', r = .ok (.text t) ∧ r' = .ok (.text t')
  | _, r, r' => r = r'

theorem Same.globalLock (h : Same g g') : g.globalLock = g'.globalLock := by
  rw [Guard.globalLock, Guard.globalLock, h.lifetimes]

theorem indifferent_same : Indifferent (@Same mode) where
  trie := fun _ _ h => { h with }
  count := fun c h => { h with metrics := congrArg (·.bump c) h.metrics }

namespace Follows

variable {α : Type}

theorem load (h : Follows reach S g g') (addr : Word) : g.trie.load addr = g'.trie.load addr :=
  h.beside.load addr

theorem size_le (h : Follows reach S g g') : g.trie.tables.size ≤ g'.trie.tables.size := by
  rw [← h.beside.supplied.count, ← h.beside.wideSupplied.count]
  exact Finset.card_le_card h.beside.within

theorem onShadow (act : Action Violation (ShadowStack mode) α) :
    Lockstep (Follows reach S) (Guard.onShadow act) (Guard.onShadow act) := by
  intro g g' h
  have hs := h.rest.shadow
  simp only [Guard.onShadow, Action.on, Action.run, hs]
  exact ⟨trivial, h.beside, { h.rest with shadow := rfl }⟩

theorem onProxies (act : Action Violation Proxies α) :
    Lockstep (Follows reach S) (Guard.onProxies act : Guarded mode α) (Guard.onProxies act) := by
  intro g g' h
  have hp := h.rest.proxies
  simp only [Guard.onProxies, Action.on, Action.run, hp]
  exact ⟨trivial, h.beside, { h.rest with proxies := rfl }⟩

theorem onLifetimes (absent : α) (act : Action Violation Lifetimes α) :
    Lockstep (Follows reach S) (Guard.onLifetimes absent act : Guarded mode α)
      (Guard.onLifetimes absent act) := by
  intro g g' h
  have hl := h.rest.lifetimes
  simp only [Guard.onLifetimes, Action.run, hl]
  cases hl' : g'.lifetimes with
  | none => exact ⟨rfl, h⟩
  | some l => exact ⟨rfl, h.beside, { h.rest with lifetimes := rfl }⟩

theorem count (c : Counter) :
    Lockstep (Follows reach S) (Guard.count c : Guarded mode Unit) (Guard.count c) :=
  lockstep_count indifferent_same c

theorem onTrie_read {f : Trie mode → α}
    (h : ∀ t u, Trie.Beside id reach S t u → f t = f u) :
    Lockstep (Follows reach S) (Guard.onTrie (.read f)) (Guard.onTrie (.read f)) :=
  fun _ _ hg => ⟨congrArg Except.ok (h _ _ hg.beside), hg.beside,
    indifferent_same.trie _ _ hg.rest⟩

theorem quiet {act : Guarded mode Unit} (h : Lockstep (Follows reach S) act act) :
    Lockstep (Follows reach S) (Guard.quiet act) (Guard.quiet act) :=
  h.bind fun _ => .pure _

theorem loadMetadata (addr : Word) :
    Lockstep (Follows reach S) (Guard.loadMetadata addr : Guarded mode Metadata)
      (Guard.loadMetadata addr) :=
  (count _).bind fun _ => onTrie_read fun _ _ h => h.load addr

theorem storeMetadata {addr : Word} (e : Metadata) (hs : wordOf addr / segmentWords ∈ S) :
    Lockstep (Follows reach S) (Guard.storeMetadata addr e : Guarded mode Unit)
      (Guard.storeMetadata addr e) :=
  lockstep_storeMetadata indifferent_same rfl hs

theorem storeLane {vector : Word} {index : Nat} (e : Metadata)
    (hs : (wordOf vector + index) / segmentWords ∈ S) :
    Lockstep (Follows reach S) (Guard.storeLane vector index e : Guarded mode Unit)
      (Guard.storeLane vector index e) := by
  refine Lockstep.test_bind fun lane hlane => storeMetadata e ?_
  rwa [wordOf_laneAddress hlane]

theorem globalLock :
    Lockstep (Follows reach S) (Action.read Guard.globalLock : Guarded mode Word)
      (Action.read Guard.globalLock) :=
  .read fun _ _ h => h.rest.globalLock

theorem storeStrings {vector : Word} {index : Nat} {strings : List (Word × Word)}
    (hs : ∀ i < strings.length, (wordOf vector + (index + i)) / segmentWords ∈ S) :
    Lockstep (Follows reach S) (Guard.storeStrings vector index strings : Guarded mode Unit)
      (Guard.storeStrings vector index strings) := by
  induction strings generalizing index with
  | nil => exact .pure ()
  | cons string strings ih =>
    refine (Lockstep.ask fun _ _ _ => rfl).bind fun bound => globalLock.bind fun lock =>
      (storeLane _ (hs 0 (by simp))).bind fun _ => ih fun i hi => ?_
    rw [Nat.add_assoc, Nat.add_comm 1 i]
    exact hs (i + 1) (by simpa using hi)

theorem registerStrings {vector : Word} {strings : List (Word × Word)}
    (hs : ∀ i < strings.length, (wordOf vector + i) / segmentWords ∈ S) :
    Lockstep (Follows reach S) (Guard.registerStrings vector strings : Guarded mode Metadata)
      (Guard.registerStrings vector strings) := by
  refine (storeStrings fun i hi => ?_).bind fun _ => (Lockstep.ask fun _ _ _ => rfl).bind fun _ =>
    globalLock.bind fun _ => .pure _
  rw [Nat.zero_add]
  exact hs i hi

theorem allocate {ptr : Word} (hreach : segmentOf ptr < reach)
    (hs : ∀ s < reach, s ≤ segmentOf ptr + 1 → segmentOf ptr ≤ s + 1 → s ∈ S) :
    Lockstep (Follows reach S) (Guard.allocate ptr : Guarded mode Lease) (Guard.allocate ptr) :=
  (lockstep_preallocate indifferent_same hreach hs).bind fun _ => (count _).bind fun _ =>
    onLifetimes _ _

theorem checkSpatial (ptr width base bound : Word) :
    Lockstep (Follows reach S) (Guard.checkSpatial ptr width base bound : Guarded mode Unit)
      (Guard.checkSpatial ptr width base bound) := by
  refine (count _).bind fun _ => .ask fun g g' h => ?_
  rw [h.rest.leniency]

theorem checkTemporal (key lock : Word) :
    Lockstep (Follows reach S) (Guard.checkTemporal key lock : Guarded mode Unit)
      (Guard.checkTemporal key lock) := by
  refine (count _).bind fun _ => .ask fun g g' h => ?_
  rw [h.rest.leniency, h.rest.lifetimes]

theorem checkDereference (ptr width : Word) (e : Metadata) :
    Lockstep (Follows reach S) (Guard.checkDereference ptr width e : Guarded mode Unit)
      (Guard.checkDereference ptr width e) := by
  cases mode with
  | spatial => exact (checkSpatial ptr width e.base e.bound).bind fun _ => .pure ()
  | temporal => exact checkTemporal e.key e.lock
  | combined =>
    exact (checkSpatial ptr width e.base e.bound).bind fun _ => checkTemporal e.key e.lock

theorem checkCall (ptr : Word) (e : Metadata) :
    Lockstep (Follows reach S) (Guard.checkCall ptr e : Guarded mode Unit)
      (Guard.checkCall ptr e) := by
  have hask : Lockstep (Follows reach S)
      (Action.ask fun g : Guard mode => callCheck g.config.leniency ptr e.base e.bound)
      (Action.ask fun g => callCheck g.config.leniency ptr e.base e.bound) :=
    .ask fun g g' h => by rw [h.rest.leniency]
  refine (count _).bind fun _ => ?_
  cases mode with
  | spatial => exact hask
  | temporal => exact .pure ()
  | combined => exact hask

theorem introspect (h : Follows reach S g g') (ptr : Word) (e : Metadata) (slot : Option Nat) :
    g.introspect ptr e slot = g'.introspect ptr e slot := by
  simp only [Guard.introspect, h.rest.leniency, h.rest.lifetimes, h.rest.shadow]

theorem lockstep_perform {op : Operation} (hin : op.Below (reach * segmentBytes))
    (hs : ∀ s < reach, op.Touches s → s ∈ S) (g g' : Guard mode) (h : Follows reach S g g') :
    Agree op ((perform op).run g).1 ((perform op).run g').1 ∧
      Follows reach S (g.step op) (g'.step op) := by
  have hwrites : (∀ s, (∃ k, op.Writes k ∧ s = k / segmentWords) → op.Touches s) →
      ∀ k, op.Writes k → k / segmentWords ∈ S :=
    fun htouch k hk => hs _ (op.writes_lt hin hk) (htouch _ ⟨k, hk, rfl⟩)
  have hlane (base : Word) (i : Nat) : Lockstep (Follows reach S)
      (Action.ask fun _ : Guard mode => laneAddress base i) (Action.ask fun _ => laneAddress base i) :=
    .ask fun _ _ _ => rfl
  revert g g'
  cases op with
  | storeMetadata addr e => exact quiet (storeMetadata e (hwrites (fun _ => id) _ rfl))
  | loadMetadata addr => exact (loadMetadata addr).bind fun _ => .pure _
  | copyMetadata dest src len =>
    exact (lockstep_copyMetadata indifferent_same src fun j hj =>
      hwrites (fun _ => id) _ ⟨j, hj, rfl⟩).bind fun _ => .pure _
  | preallocate addr =>
    exact quiet (lockstep_preallocate indifferent_same (segmentOf_lt hin) fun s hlt hlo hhi =>
      hs s hlt ⟨hlo, hhi⟩)
  | preallocateRange start len =>
    refine quiet (lockstep_onTrie indifferent_same fun t u hb => ?_)
    obtain ⟨ht, hu, hb₁⟩ := hb.preallocateRange fun hz => by
      have hreach := lastSegment_lt hz (hin.resolve_left hz)
      exact ⟨hreach, fun s hlo hhi => hs s (by omega) ⟨hlo, hhi⟩⟩
    exact ⟨ht.trans hu.symm, hb₁⟩
  | storeLane vector index e => exact quiet (storeLane e (hwrites (fun _ => id) _ rfl))
  | loadLane vector index =>
    exact ((hlane vector index).bind fun lane => loadMetadata lane).bind fun _ => .pure _
  | registerStrings vector strings =>
    exact (registerStrings fun i hi => hwrites (fun _ => id) _ ⟨i, hi, rfl⟩).bind fun _ => .pure _
  | attachProxy addr proxy =>
    exact quiet ((count _).bind fun _ => lockstep_updateTrie indifferent_same fun t u h =>
      h.store rfl (by rw [Trie.segmentOf_eq]; exact hwrites (fun _ => id) _ rfl))
  | attachedProxy addr =>
    exact ((count _).bind fun _ => onTrie_read fun t u h =>
      congrArg mode.firstWord (h.load addr)).bind fun _ => .pure _
  | pushFrame slots => exact quiet ((onShadow _).bind fun _ => count _)
  | popFrame => exact quiet (onShadow _)
  | loadSlot slot => exact (onShadow _).bind fun _ => .pure _
  | storeSlot slot e => exact quiet (onShadow _)
  | propagateSlot source target => exact quiet (onShadow _)
  | storeReturn e => exact quiet (onShadow _)
  | storeNullReturn => exact quiet (onShadow _)
  | openProxy slot => exact ((onShadow _).bind fun _ => onProxies _).bind fun _ => .pure _
  | nextVariadic proxy =>
    exact ((onProxies _).bind fun _ => (onShadow _).bind fun _ => (onProxies _).bind fun _ =>
      .pure _).bind fun _ => .pure _
  | copyProxy proxy => exact (onProxies _).bind fun _ => .pure _
  | closeProxy proxy => exact quiet (onProxies _)
  | storeProxySlot slot proxy => exact quiet (onShadow _)
  | loadProxySlot slot => exact (onShadow _).bind fun _ => .pure _
  | allocate ptr =>
    exact (allocate (segmentOf_lt hin) fun s hlt hlo hhi => hs s hlt ⟨hlo, hhi⟩).bind fun _ => .pure _
  | allocateObject ptr size =>
    exact ((allocate (segmentOf_lt hin) fun s hlt hlo hhi => hs s hlt ⟨hlo, hhi⟩).bind fun _ =>
      (Lockstep.orFail _ _).bind fun _ => .pure _).bind fun _ => .pure _
  | deallocate ptr key lock => exact quiet ((onLifetimes _ _).bind fun _ => count _)
  | relocate old new key => exact quiet (onLifetimes _ _)
  | stackAllocate => exact ((count _).bind fun _ => onLifetimes _ _).bind fun _ => .pure _
  | stackDeallocate key => exact quiet ((onLifetimes _ _).bind fun _ => count _)
  | checkSpatial ptr width base bound => exact quiet (checkSpatial ptr width base bound)
  | checkTemporal key lock => exact quiet (checkTemporal key lock)
  | checkDereference ptr width e => exact quiet (checkDereference ptr width e)
  | checkDereferenceVia witness ptr width =>
    exact quiet ((loadMetadata witness).bind (checkDereference ptr width))
  | checkCall ptr e => exact quiet (checkCall ptr e)
  | checkCopy dest src len destEntry srcEntry =>
    exact quiet ((checkDereference dest len destEntry).bind fun _ =>
      checkDereference src len srcEntry)
  | checkFill dest len e => exact quiet (checkDereference dest len e)
  | introspect ptr e slot =>
    exact Lockstep.read fun _ _ h => congrArg Answer.introspection (introspect h ptr e slot)
  | globalLock => exact Lockstep.read fun _ _ h => congrArg Answer.word h.rest.globalLock
  | wideMetadata =>
    refine Lockstep.read fun g g' h => congrArg Answer.entry ?_
    rw [Guard.wideMetadata, Guard.wideMetadata, h.rest.globalLock]
  | stackLockPolicy =>
    exact Lockstep.read fun g g' h =>
      congrArg Answer.stackLockPolicy h.rest.stackLockPolicy
  | isInstalled addr => exact fun g g' h => ⟨⟨_, _, rfl, rfl, h.beside.isInstalled⟩, h⟩
  | snapshot => exact fun g g' h => ⟨⟨_, _, rfl, rfl, h.rest.metrics, h.size_le⟩, h⟩
  | describe => exact fun g g' h => ⟨⟨_, _, rfl, rfl⟩, h⟩

theorem after {ops : List Operation} (hin : ∀ op ∈ ops, op.Below (reach * segmentBytes))
    (hg : Granted reach S ops) (h : Follows reach S g g') :
    Follows reach S (g.after ops) (g'.after ops) := by
  induction ops generalizing g g' with
  | nil => exact h
  | cons op ops ih =>
    have hop := lockstep_perform (hin op (List.mem_cons_self ..))
      (hg.touched op (List.mem_cons_self ..)) g g' h
    exact ih (fun op' hm => hin op' (List.mem_cons_of_mem _ hm))
      (hg.mono fun op' hm => List.mem_cons_of_mem _ hm) hop.2

end Follows

/-- The guard as it would be under another install policy. -/
def withPolicy (policy : InstallPolicy) (g : Guard mode) : Guard mode :=
  { g with
    config := { g.config with installPolicy := policy }
    trie := { g.trie with policy } }

theorem reserve_withPolicy {config : Config} (policy : InstallPolicy)
    (h : reserve host config = .ok g) :
    reserve host { config with installPolicy := policy } = .ok (g.withPolicy policy) := by
  unfold reserve at h ⊢
  obtain ⟨trie, ht, h⟩ := bind_eq_ok h
  obtain ⟨shadow, hs, h⟩ := bind_eq_ok h
  have ht' : Trie.create host config.primaryEntries policy
      = .ok ({ trie with policy } : Trie mode) := by
    cases Trie.create_eq_ok ht
    unfold Trie.create at ht ⊢
    cases hp : Table.reserve (α := Nat) host .primary config.primaryEntries 4 with
    | error e => simp [hp] at ht
    | ok reserved =>
      obtain ⟨base, primary⟩ := reserved
      cases (Table.reserve_eq_ok hp).1
      rfl
  show (Trie.create host config.primaryEntries policy >>= _) = _
  rw [ht']
  show (ShadowStack.create host config.shadowStackWords >>= _) = _
  rw [hs]
  by_cases hmode : mode.tracksLifetime = true
  · simp only [hmode, ↓reduceIte] at h ⊢
    obtain ⟨lifetimes, hl, h⟩ := bind_eq_ok h
    cases Except.ok.inj h
    show (some <$> Lifetimes.create host _ _ _ _ >>= _) = _
    rw [hl]
    rfl
  · simp only [hmode] at h ⊢
    cases Except.ok.inj h
    rfl

/-- Whether a configuration is usable and can be reserved does not depend on its install policy. -/
theorem create_eager {config : Config} {lazy : Guard mode}
    (hc : Guard.create host { config with installPolicy := .lazy } = .ok lazy) :
    Guard.create host { config with installPolicy := .eager } = .ok (lazy.withPolicy .eager) := by
  obtain ⟨hv, hr⟩ := reserve_of_create hc
  have hv' : Config.validate { config with installPolicy := .eager } = .ok () := hv
  have hr' := reserve_withPolicy .eager hr
  unfold create
  simp only [hv', hr']

/-- Within reach of the primary table a run answers, counts and loads the same under both install
policies. -/
theorem eager_agrees_with_lazy (config : Config) {lazy : Guard mode}
    (hc : Guard.create host { config with installPolicy := .lazy } = .ok lazy) :
    ∃ eager : Guard mode, Guard.create host { config with installPolicy := .eager } = .ok eager ∧
      ∀ ops : List Operation, (∀ op ∈ ops, op.Below (config.primaryEntries * segmentBytes)) →
        (∃ S, Granted config.primaryEntries S ops) →
        (∀ before op rest, ops = before ++ op :: rest →
          Agree op ((perform op).run (lazy.after before)).1
            ((perform op).run (eager.after before)).1) ∧
        (lazy.after ops).metrics = (eager.after ops).metrics ∧
        ∀ addr, (lazy.after ops).trie.load addr = (eager.after ops).trie.load addr ∧
          ((lazy.after ops).trie.isInstalled addr = true →
            (eager.after ops).trie.isInstalled addr = true) := by
  have hc' := create_eager hc
  refine ⟨lazy.withPolicy .eager, hc', fun ops hin hg => ?_⟩
  obtain ⟨S, hg⟩ := hg
  have hstart : Follows config.primaryEntries S lazy (lazy.withPolicy .eager) :=
    ⟨.of_create (create_eq_ok hc).2.1 (create_eq_ok hc').2.1 (fun _ => rfl) (fun _ => rfl)
      hg.below hg.enough, rfl, rfl, rfl, rfl, rfl, rfl⟩
  have hend := hstart.after hin hg
  refine ⟨?_, hend.rest.metrics, fun addr => ⟨hend.load addr, hend.beside.isInstalled⟩⟩
  rintro before op rest rfl
  have hbefore : Follows config.primaryEntries S (lazy.after before)
      ((lazy.withPolicy .eager).after before) :=
    hstart.after (fun op' hm => hin op' (List.mem_append_left _ hm))
      (hg.mono fun op' hm => List.mem_append_left _ hm)
  have hmem : op ∈ before ++ op :: rest := List.mem_append_right _ (List.mem_cons_self ..)
  exact (Follows.lockstep_perform (hin op hmem) (hg.touched op hmem) _ _ hbefore).1

/-- The eager policy also installs the segment after that of the object, from which the copy takes
its source. -/
theorem eager_agrees_with_lazy_at_segment_end :
    ∃ lazy eager : Guard .combined,
      Guard.create .standard { Config.compact with primaryEntries := 3, installPolicy := .lazy }
        = .ok lazy ∧
      Guard.create .standard { Config.compact with primaryEntries := 3, installPolicy := .eager }
        = .ok eager ∧
      let before : List Operation :=
        [.allocateObject 0x1fffff0 16, .storeMetadata 0x1fffff8 ⟨1, 2, 3, 4⟩]
      ((perform (.copyMetadata 0x3fffff8 0x1fffff8 16)).run (lazy.after before)).1 = .ok (.count 2) ∧
      ((perform (.copyMetadata 0x3fffff8 0x1fffff8 16)).run (eager.after before)).1 = .ok (.count 2) ∧
      (lazy.after before).trie.isInstalled 0x2000000 = false ∧
      (eager.after before).trie.isInstalled 0x2000000 = true ∧
      ∀ addr, (lazy.after (before ++ [.copyMetadata 0x3fffff8 0x1fffff8 16])).trie.load addr
        = (eager.after (before ++ [.copyMetadata 0x3fffff8 0x1fffff8 16])).trie.load addr := by
  have hc : (Guard.create .standard
      { Config.compact with primaryEntries := 3, installPolicy := .lazy } :
      Except _ (Guard .combined)) = .ok _ := rfl
  obtain ⟨eager, hc', hagree⟩ :=
    eager_agrees_with_lazy { Config.compact with primaryEntries := 3 } hc
  cases hc'
  have hbelow : ∀ op ∈ [Operation.allocateObject 0x1fffff0 16, .storeMetadata 0x1fffff8 ⟨1, 2, 3, 4⟩,
      .copyMetadata 0x3fffff8 0x1fffff8 16], op.Below (3 * segmentBytes) := by
    intro op hm
    simp only [List.mem_cons, List.not_mem_nil, or_false] at hm
    rcases hm with rfl | rfl | rfl
    · show (0x1fffff0 : Nat) < 3 * segmentBytes
      decide
    · show (0x1fffff8 : Nat) < 3 * segmentBytes
      decide
    · exact Or.inr (by decide)
  obtain ⟨hanswers, _, hloads⟩ := hagree _ hbelow ⟨_, granted_range (by decide) _⟩
  have hcopy := hanswers [.allocateObject 0x1fffff0 16, .storeMetadata 0x1fffff8 ⟨1, 2, 3, 4⟩]
    (.copyMetadata 0x3fffff8 0x1fffff8 16) [] rfl
  refine ⟨_, _, hc, rfl, rfl, ?_, rfl, rfl, fun addr => (hloads addr).1⟩
  exact hcopy.symm.trans rfl

end PointerGuard.Guard
