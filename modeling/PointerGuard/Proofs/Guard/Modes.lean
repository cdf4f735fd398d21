import PointerGuard.Proofs.Guard.Dereference
import PointerGuard.Proofs.Guard.Lockstep

namespace PointerGuard

variable {host : Host}

/-- Allocations and their ends. -/
def Operation.Allocates : Operation → Prop
  | .allocate _ => True
  | .deallocate .. => True
  | .relocate .. => True
  | .stackAllocate => True
  | .stackDeallocate _ => True
  | _ => False

/-- Stores, copies and preallocations of metadata, allocations and checks. -/
def Operation.Common : Operation → Prop
  | .storeMetadata .. => True
  | .copyMetadata .. => True
  | .preallocate _ => True
  | .checkDereference .. => True
  | op => op.Allocates

namespace Guard

open PointerGuard.Action (Lockstep)

variable {mode wide : Mode} {f : Metadata → Metadata} {reach : Nat} {S : Finset Nat} {α β : Type}

/-- However it ends, the step leaves the trie as it was. -/
def KeepsTrie (act : Guarded mode α) : Prop := ∀ g, (act.run g).2.trie = g.trie

namespace KeepsTrie

theorem trie_bind {act : Guarded mode α} {next : α → Guarded mode β} (hn : ∀ a, KeepsTrie (next a))
    (g : Guard mode) : ((act >>= next).run g).2.trie = (act.run g).2.trie := by
  cases hr : act.run g with
  | mk r g' =>
    cases r with
    | error v => rw [Action.run_bind_of_error hr]
    | ok a =>
      rw [Action.run_bind_of_ok hr]
      exact hn a g'

theorem pure (a : α) : KeepsTrie (pure a : Guarded mode α) := fun _ => rfl

theorem ask (f : Guard mode → Except Violation α) : KeepsTrie (Action.ask f) := fun _ => rfl

theorem count (c : Counter) : KeepsTrie (count c : Guarded mode Unit) := fun _ => rfl

theorem bind {act : Guarded mode α} {next : α → Guarded mode β} (h : KeepsTrie act)
    (hn : ∀ a, KeepsTrie (next a)) : KeepsTrie (act >>= next) :=
  fun g => (trie_bind hn g).trans (h g)

theorem onLifetimes (absent : α) (act : Action Violation Lifetimes α) :
    KeepsTrie (onLifetimes absent act : Guarded mode α) := by
  intro g
  cases hl : g.lifetimes with
  | none => simp only [Action.run, Guard.onLifetimes, hl]
  | some l => rw [run_onLifetimes hl]

theorem checkDereference (ptr width : Word) (e : Metadata) :
    KeepsTrie (checkDereference ptr width e : Guarded mode Unit) := by
  have hspatial : KeepsTrie (checkSpatial ptr width e.base e.bound : Guarded mode Unit) :=
    (count _).bind fun _ => ask _
  have htemporal : KeepsTrie (checkTemporal e.key e.lock : Guarded mode Unit) :=
    (count _).bind fun _ => ask _
  cases mode with
  | spatial => exact hspatial.bind fun _ => pure ()
  | temporal => exact htemporal
  | combined => exact hspatial.bind fun _ => htemporal

end KeepsTrie

theorem trie_step_allocate {g : Guard mode} {ptr : Word}
    (h : (g.trie.preallocate ptr).1 = .ok ()) :
    (g.step (.allocate ptr)).trie = (g.trie.preallocate ptr).2 := by
  have htail : KeepsTrie (do
      count .heapAllocations
      onLifetimes default (·.allocate ptr) : Guarded mode Lease) :=
    (KeepsTrie.count _).bind fun _ => .onLifetimes _ _
  rw [step, perform, KeepsTrie.trie_bind fun _ => .pure _, allocate,
    Action.run_bind_of_ok (run_preallocate_of_fst h)]
  exact htail _

/-- Common operations keep the tries of two guards beside each other, whatever they answer. -/
theorem beside_step {op : Operation} (hc : op.Common) (hin : op.Below (reach * segmentBytes))
    (hs : ∀ s < reach, op.Touches s → s ∈ S) {g : Guard mode} {g' : Guard wide}
    (h : Trie.Beside f reach S g.trie g'.trie) :
    Trie.Beside f reach S (g.step op).trie (g'.step op).trie := by
  have hany : Indifferent fun (_ : Guard mode) (_ : Guard wide) => True := ⟨fun _ _ => id, fun _ => id⟩
  have hmoves : Lockstep (Alongside f reach S fun _ _ => True) (perform op : Guarded mode Answer)
      (perform op : Guarded wide Answer) →
      Trie.Beside f reach S (g.step op).trie (g'.step op).trie :=
    fun hl => (hl g g' ⟨h, trivial⟩).2.beside
  have hkeeps : (∀ m, KeepsTrie (perform op : Guarded m Answer)) →
      Trie.Beside f reach S (g.step op).trie (g'.step op).trie := by
    intro hk
    rw [step, step, hk mode g, hk wide g']
    exact h
  cases op with
  | storeMetadata addr e =>
    exact hmoves ((lockstep_storeMetadata hany (h.keep e).symm
      (hs _ (Operation.writes_lt hin rfl) ⟨_, rfl, rfl⟩)).bind fun _ => .pure _)
  | copyMetadata dest src len =>
    exact hmoves ((lockstep_copyMetadata hany src fun j hj =>
      hs _ (Operation.writes_lt hin ⟨j, hj, rfl⟩) ⟨_, ⟨j, hj, rfl⟩, rfl⟩).bind fun _ => .pure _)
  | preallocate addr =>
    exact hmoves ((lockstep_preallocate hany (segmentOf_lt hin) fun s hlt hlo hhi =>
      hs s hlt ⟨hlo, hhi⟩).bind fun _ => .pure _)
  | allocate ptr =>
    obtain ⟨ht, hu, hb⟩ := h.preallocate (segmentOf_lt hin) fun s hlt hlo hhi =>
      hs s hlt ⟨hlo, hhi⟩
    rw [trie_step_allocate ht, trie_step_allocate hu]
    exact hb
  | deallocate ptr key lock =>
    exact hkeeps fun _ => ((KeepsTrie.onLifetimes _ _).bind fun _ => .count _).bind fun _ => .pure _
  | relocate old new key => exact hkeeps fun _ => (KeepsTrie.onLifetimes _ _).bind fun _ => .pure _
  | stackAllocate =>
    exact hkeeps fun _ => ((KeepsTrie.count _).bind fun _ => .onLifetimes _ _).bind fun _ => .pure _
  | stackDeallocate key =>
    exact hkeeps fun _ => ((KeepsTrie.onLifetimes _ _).bind fun _ => .count _).bind fun _ => .pure _
  | checkDereference ptr width e =>
    exact hkeeps fun _ => (KeepsTrie.checkDereference ptr width e).bind fun _ => .pure _
  | _ => exact hc.elim

theorem beside_after {ops : List Operation} (hc : ∀ op ∈ ops, op.Common)
    (hin : ∀ op ∈ ops, op.Below (reach * segmentBytes)) (hg : Granted reach S ops) {g : Guard mode}
    {g' : Guard wide} (h : Trie.Beside f reach S g.trie g'.trie) :
    Trie.Beside f reach S (g.after ops).trie (g'.after ops).trie := by
  induction ops generalizing g g' with
  | nil => exact h
  | cons op ops ih =>
    have hmem := List.mem_cons_self (a := op) (l := ops)
    have hop := beside_step (hc op hmem) (hin op hmem) (hg.touched op hmem) h
    exact ih (fun op' hm => hc op' (List.mem_cons_of_mem _ hm))
      (fun op' hm => hin op' (List.mem_cons_of_mem _ hm))
      (hg.mono fun op' hm => List.mem_cons_of_mem _ hm) hop

/-- The guards have the same lifetimes. -/
def SameLifetimes (g : Guard mode) (g' : Guard wide) : Prop := g.lifetimes = g'.lifetimes

theorem indifferent_sameLifetimes : Indifferent (@SameLifetimes mode wide) :=
  ⟨fun _ _ h => h, fun _ h => h⟩

theorem lockstep_onLifetimes (absent : α) (act : Action Violation Lifetimes α) :
    Lockstep (Alongside f reach S SameLifetimes) (onLifetimes absent act : Guarded mode α)
      (onLifetimes absent act : Guarded wide α) := by
  intro g g' h
  have hl : g.lifetimes = g'.lifetimes := h.rest
  cases hl' : g'.lifetimes with
  | none =>
    simp only [onLifetimes, Action.run, hl.trans hl', hl']
    exact ⟨trivial, h⟩
  | some l =>
    rw [run_onLifetimes (hl.trans hl'), run_onLifetimes hl']
    exact ⟨rfl, h.beside, rfl⟩

/-- Two guards with the same lifetimes answer allocations alike. -/
theorem lockstep_allocates {op : Operation} (ha : op.Allocates)
    (hin : op.Below (reach * segmentBytes)) (hs : ∀ s < reach, op.Touches s → s ∈ S) :
    Lockstep (Alongside f reach S SameLifetimes) (perform op : Guarded mode Answer)
      (perform op : Guarded wide Answer) := by
  have hcount (c : Counter) : Lockstep (Alongside f reach S SameLifetimes)
      (count c : Guarded mode Unit) (count c : Guarded wide Unit) :=
    lockstep_count indifferent_sameLifetimes c
  cases op with
  | allocate ptr =>
    have hpre : Lockstep (Alongside f reach S SameLifetimes) (preallocate ptr : Guarded mode Unit)
        (preallocate ptr : Guarded wide Unit) :=
      lockstep_preallocate indifferent_sameLifetimes (segmentOf_lt hin)
        fun s hlt hlo hhi => hs s hlt ⟨hlo, hhi⟩
    exact (hpre.bind fun _ => (hcount _).bind fun _ => lockstep_onLifetimes _ _).bind fun _ => .pure _
  | deallocate ptr key lock =>
    exact ((lockstep_onLifetimes _ _).bind fun _ => hcount _).bind fun _ => .pure _
  | relocate old new key => exact (lockstep_onLifetimes _ _).bind fun _ => .pure _
  | stackAllocate => exact ((hcount _).bind fun _ => lockstep_onLifetimes _ _).bind fun _ => .pure _
  | stackDeallocate key =>
    exact ((lockstep_onLifetimes _ _).bind fun _ => hcount _).bind fun _ => .pure _
  | _ => exact ha.elim

theorem sameLifetimes_step {op : Operation} (hc : op.Common)
    (hin : op.Below (reach * segmentBytes)) (hs : ∀ s < reach, op.Touches s → s ∈ S)
    {g : Guard mode} {g' : Guard wide} (h : Alongside f reach S SameLifetimes g g') :
    SameLifetimes (g.step op) (g'.step op) := by
  have hkeeps : g.requests op = [] → g'.requests op = [] →
      SameLifetimes (g.step op) (g'.step op) := by
    intro hr hr'
    have hl := (effect_perform op g).lifetimes
    have hl' := (effect_perform op g').lifetimes
    rw [hr] at hl
    rw [hr', ← h.rest] at hl'
    exact hl.trans hl'.symm
  have hallocates (ha : op.Allocates) : SameLifetimes (g.step op) (g'.step op) :=
    (lockstep_allocates ha hin hs g g' h).2.rest
  cases op with
  | storeMetadata addr e => exact hkeeps rfl rfl
  | copyMetadata dest src len => exact hkeeps rfl rfl
  | preallocate addr => exact hkeeps rfl rfl
  | checkDereference ptr width e => exact hkeeps rfl rfl
  | allocate ptr => exact hallocates trivial
  | deallocate ptr key lock => exact hallocates trivial
  | relocate old new key => exact hallocates trivial
  | stackAllocate => exact hallocates trivial
  | stackDeallocate key => exact hallocates trivial
  | _ => exact hc.elim

theorem alongside_after {ops : List Operation} (hc : ∀ op ∈ ops, op.Common)
    (hin : ∀ op ∈ ops, op.Below (reach * segmentBytes)) (hg : Granted reach S ops) {g : Guard mode}
    {g' : Guard wide} (h : Alongside f reach S SameLifetimes g g') :
    Alongside f reach S SameLifetimes (g.after ops) (g'.after ops) := by
  induction ops generalizing g g' with
  | nil => exact h
  | cons op ops ih =>
    have hmem := List.mem_cons_self (a := op) (l := ops)
    have hbeside := beside_step (hc op hmem) (hin op hmem) (hg.touched op hmem) h.beside
    have hsame := sameLifetimes_step (hc op hmem) (hin op hmem) (hg.touched op hmem) h
    exact ih (fun op' hm => hc op' (List.mem_cons_of_mem _ hm))
      (fun op' hm => hin op' (List.mem_cons_of_mem _ hm))
      (hg.mono fun op' hm => List.mem_cons_of_mem _ hm) ⟨hbeside, hsame⟩

/-- A combined check passes exactly if both of its halves do. -/
theorem checkDereference_combined_iff {s : Guard .spatial} {t : Guard .temporal}
    {c : Guard .combined} (hs : s.config.leniency = c.config.leniency)
    (ht : t.config.leniency = c.config.leniency) (hl : t.lifetimes = c.lifetimes)
    (ptr width : Word) (e : Metadata) :
    ((perform (.checkDereference ptr width e)).run c).1 = .ok .done ↔
      ((perform (.checkDereference ptr width e)).run s).1 = .ok .done ∧
        ((perform (.checkDereference ptr width e)).run t).1 = .ok .done := by
  have hspatial {m m' : Mode} {g : Guard m} {g' : Guard m'}
      (hg : g.config.leniency = g'.config.leniency) :
      ((checkSpatial ptr width e.base e.bound).run g).1
        = ((checkSpatial ptr width e.base e.bound).run g').1 := by
    show spatialCheck g.config.leniency _ _ _ _ = spatialCheck g'.config.leniency _ _ _ _
    rw [hg]
  have htemporal : ((checkTemporal e.key e.lock).run t).1 = ((checkTemporal e.key e.lock).run
      ((checkSpatial ptr width e.base e.bound).run c).2).1 := by
    show ite _ _ _ = ite _ _ _
    rw [ht, hl]
    rfl
  have hs' : ((checkDereference ptr width e).run s).1 = .ok () ↔
      ((checkSpatial ptr width e.base e.bound).run s).1 = .ok () := by
    show ((checkSpatial ptr width e.base e.bound >>= fun _ => pure ()).run s).1 = _ ↔ _
    rw [Action.run_bind_eq_ok_iff]
    exact ⟨fun ⟨_, h, _⟩ => h, fun h => ⟨(), h, rfl⟩⟩
  have hc' : ((checkDereference ptr width e).run c).1 = .ok () ↔
      ((checkSpatial ptr width e.base e.bound).run c).1 = .ok () ∧
        ((checkTemporal e.key e.lock).run
          ((checkSpatial ptr width e.base e.bound).run c).2).1 = .ok () := by
    show ((checkSpatial ptr width e.base e.bound >>= fun _ => checkTemporal e.key e.lock).run c).1
      = _ ↔ _
    rw [Action.run_bind_eq_ok_iff]
    exact ⟨fun ⟨_, h, h'⟩ => ⟨h, h'⟩, fun ⟨h, h'⟩ => ⟨(), h, h'⟩⟩
  have ht' : ((checkDereference ptr width e).run t).1 = ((checkTemporal e.key e.lock).run t).1 := rfl
  rw [perform, perform, perform, quiet_eq_ok_iff, quiet_eq_ok_iff, quiet_eq_ok_iff, hc', hs', ht',
    htemporal, hspatial hs]

/-- The combined guard keeps the bounds of the spatial one and the leases of the temporal one, and
lets an access pass exactly if both of them do. -/
theorem combined_is_product {config : Config} {s : Guard .spatial} {t : Guard .temporal}
    {c : Guard .combined} (hs : Guard.create host config = .ok s)
    (ht : Guard.create host config = .ok t)
    (hc : Guard.create host config = .ok c) {ops : List Operation} (hcommon : ∀ op ∈ ops, op.Common)
    (hin : ∀ op ∈ ops, op.Below (config.primaryEntries * segmentBytes))
    (hg : ∃ S, Granted config.primaryEntries S ops) :
    (∀ addr, (c.after ops).trie.load addr =
      ⟨((s.after ops).trie.load addr).base, ((s.after ops).trie.load addr).bound,
        ((t.after ops).trie.load addr).key, ((t.after ops).trie.load addr).lock⟩) ∧
    (∀ before op rest, ops = before ++ op :: rest → op.Allocates →
      ((perform op).run (t.after before)).1 = ((perform op).run (c.after before)).1) ∧
    ∀ ptr width e, ((perform (.checkDereference ptr width e)).run (c.after ops)).1 = .ok .done ↔
      ((perform (.checkDereference ptr width e)).run (s.after ops)).1 = .ok .done ∧
        ((perform (.checkDereference ptr width e)).run (t.after ops)).1 = .ok .done := by
  obtain ⟨S, hg⟩ := hg
  obtain ⟨_, hst, _⟩ := create_eq_ok hs
  obtain ⟨_, htt, htl⟩ := create_eq_ok ht
  obtain ⟨_, hct, hcl⟩ := create_eq_ok hc
  obtain ⟨l, hl, hlc⟩ := htl rfl
  obtain ⟨l', hl', hlc'⟩ := hcl rfl
  have hspatial : Trie.Beside Mode.spatial.keep config.primaryEntries S s.trie c.trie :=
    .of_create hst hct (fun _ => rfl) id hg.below hg.enough
  have htemporal : Alongside Mode.temporal.keep config.primaryEntries S SameLifetimes t c := by
    refine ⟨.of_create htt hct (fun _ => rfl) id hg.below hg.enough, ?_⟩
    rw [hlc] at hlc'
    rw [SameLifetimes, hl, hl', Except.ok.inj hlc']
  have hends := beside_after hcommon hin hg hspatial
  have hendt := alongside_after hcommon hin hg htemporal
  refine ⟨fun addr => ?_, ?_, fun ptr width e => ?_⟩
  · rw [hends.load addr, hendt.beside.load addr]
    rfl
  · rintro before op rest rfl ha
    have hmem : op ∈ before ++ op :: rest := List.mem_append_right _ (List.mem_cons_self ..)
    have hbefore := alongside_after (fun op' hm => hcommon op' (List.mem_append_left _ hm))
      (fun op' hm => hin op' (List.mem_append_left _ hm))
      (hg.mono fun op' hm => List.mem_append_left _ hm) htemporal
    exact (lockstep_allocates ha (hin op hmem) (hg.touched op hmem) _ _ hbefore).1
  · have hconfig {m : Mode} {g : Guard m} (hg : Guard.create host config = .ok g) :
        (g.after ops).config = config :=
      (config_after g ops).trans (config_create hg)
    refine checkDereference_combined_iff ?_ ?_ hendt.rest ptr width e
    · rw [hconfig hs, hconfig hc]
    · rw [hconfig ht, hconfig hc]

/-- The entry that is copied holds no bounds, so the spatial guard skips it and installs no table
where the combined one does. -/
theorem combined_is_product_after_skip :
    ∃ (s : Guard .spatial) (t : Guard .temporal) (c : Guard .combined),
      Guard.create .standard { Config.compact with primaryEntries := 3 } = .ok s ∧
      Guard.create .standard { Config.compact with primaryEntries := 3 } = .ok t ∧
      Guard.create .standard { Config.compact with primaryEntries := 3 } = .ok c ∧
      let ops : List Operation := [.allocate 0x5000, .storeMetadata 0x1fffff8 ⟨0, 0, 2, heapLocksAddr⟩,
        .copyMetadata 0x3fffff8 0x1fffff8 16]
      (s.after ops).trie.isInstalled 0x3fffff8 = false ∧
      (c.after ops).trie.isInstalled 0x3fffff8 = true ∧
      (c.after ops).trie.load 0x3fffff8 = ⟨0, 0, 2, heapLocksAddr⟩ ∧
      ((perform (.checkDereference 0x5000 16 ⟨0x5000, 0x5010, 2, heapLocksAddr⟩)).run
        (c.after ops)).1 = .ok .done := by
  have hs : (Guard.create .standard { Config.compact with primaryEntries := 3 } :
      Except _ (Guard .spatial)) = .ok _ := rfl
  have ht : (Guard.create .standard { Config.compact with primaryEntries := 3 } :
      Except _ (Guard .temporal)) = .ok _ := rfl
  have hc : (Guard.create .standard { Config.compact with primaryEntries := 3 } :
      Except _ (Guard .combined)) = .ok _ := rfl
  have hops : ∀ op ∈ [Operation.allocate 0x5000, .storeMetadata 0x1fffff8 ⟨0, 0, 2, heapLocksAddr⟩,
      .copyMetadata 0x3fffff8 0x1fffff8 16], op.Common ∧ op.Below (3 * segmentBytes) := by
    intro op hm
    simp only [List.mem_cons, List.not_mem_nil, or_false] at hm
    rcases hm with rfl | rfl | rfl
    · exact ⟨trivial, show (0x5000 : Nat) < 3 * segmentBytes by decide⟩
    · exact ⟨trivial, show (0x1fffff8 : Nat) < 3 * segmentBytes by decide⟩
    · exact ⟨trivial, Or.inr (by decide)⟩
  obtain ⟨hload, _, hcheck⟩ := combined_is_product hs ht hc (fun op hm => (hops op hm).1)
    (fun op hm => (hops op hm).2) ⟨_, granted_range (by decide) _⟩
  exact ⟨_, _, _, hs, ht, hc, rfl, rfl, hload 0x3fffff8, (hcheck 0x5000 16 _).mpr ⟨rfl, rfl⟩⟩

end Guard

end PointerGuard
