import PointerGuard.Proofs.Guard.Parts
import PointerGuard.Proofs.Proxies.Cursors

namespace PointerGuard

/-- The operation changes which frames there are, or a proxy. -/
def Operation.isCall : Operation → Bool
  | .pushFrame _ => true
  | .popFrame => true
  | .openProxy _ => true
  | .nextVariadic _ => true
  | .copyProxy _ => true
  | .closeProxy _ => true
  | _ => false

namespace Guard

variable {mode : Mode} {α β : Type}

/-- However it ends, the step leaves frames and proxies alone. -/
def Spares (act : Guarded mode α) : Prop :=
  ∀ g, (act.run g).2.shadow = g.shadow ∧ (act.run g).2.proxies = g.proxies

theorem spares_iff_keeps {act : Guarded mode α} :
    Spares act ↔ Keeps (fun g : Guard mode => (g.shadow, g.proxies)) act :=
  forall_congr' fun _ => Prod.mk_inj.symm

namespace Spares

variable {act : Guarded mode α} {next : α → Guarded mode β}

theorem pure (a : α) : Spares (pure a : Guarded mode α) :=
  fun _ => ⟨rfl, rfl⟩

theorem read (f : Guard mode → α) : Spares (Action.read f : Guarded mode α) :=
  fun _ => ⟨rfl, rfl⟩

theorem orFail (v : Violation) (o : Option α) : Spares (Action.orFail v o : Guarded mode α) :=
  spares_iff_keeps.mpr (.orFail v o)

theorem bind (h : Spares act) (hn : ∀ a, Spares (next a)) : Spares (act >>= next) :=
  spares_iff_keeps.mpr ((spares_iff_keeps.mp h).bind fun a => spares_iff_keeps.mp (hn a))

theorem quiet {act : Guarded mode Unit} (h : Spares act) : Spares (quiet act) :=
  h.bind fun _ => pure _

theorem count (c : Counter) : Spares (count c : Guarded mode Unit) :=
  fun _ => ⟨rfl, rfl⟩

theorem askShadow (f : ShadowStack mode → Except Violation α) :
    Spares (onShadow (.ask f) : Guarded mode α) :=
  fun _ => ⟨rfl, rfl⟩

theorem onTrie (step : Action Violation (Trie mode) α) : Spares (onTrie step) :=
  fun _ => ⟨rfl, rfl⟩

theorem onLifetimes (absent : α) (step : Action Violation Lifetimes α) :
    Spares (onLifetimes absent step : Guarded mode α) :=
  spares_iff_keeps.mpr (.onLifetimes (fun _ _ => rfl) absent step)

theorem count_bind {c : Counter} (h : Spares act) : Spares (Guard.count c >>= fun _ => act) :=
  (count c).bind fun _ => h

end Spares

theorem overlooks_calls : Overlooks fun g : Guard mode => (g.shadow, g.proxies) :=
  ⟨fun _ _ => rfl, fun _ _ _ => rfl⟩

theorem spares_copyMetadata (dest src len : Word) :
    Spares (copyMetadata dest src len : Guarded mode Nat) :=
  spares_iff_keeps.mpr (overlooks_calls.copyMetadata dest src len)

theorem spares_allocate (ptr : Word) : Spares (allocate ptr : Guarded mode Lease) :=
  (Spares.onTrie _).bind fun _ => .count_bind (.onLifetimes _ _)

theorem spares_allocateObject (ptr size : Word) :
    Spares (allocateObject ptr size : Guarded mode Metadata) :=
  (spares_allocate ptr).bind fun _ => (Spares.orFail _ _).bind fun _ => .pure _

theorem run_updateShadow_of_ok {g : Guard mode}
    {f : ShadowStack mode → Except Violation (ShadowStack mode)} {s : ShadowStack mode}
    (h : f g.shadow = .ok s) : (onShadow (.update f)).run g = (.ok (), { g with shadow := s }) := by
  simp only [onShadow, Action.on, Action.run, Action.update, h]

theorem run_updateShadow_of_error {g : Guard mode}
    {f : ShadowStack mode → Except Violation (ShadowStack mode)} {v : Violation}
    (h : f g.shadow = .error v) : (onShadow (.update f)).run g = (.error v, g) := by
  simp only [onShadow, Action.on, Action.run, Action.update, h]

/-- What an operation does to frames and proxies, told with its answer. -/
inductive Turn (g : Guard mode) :
    Operation → Except Violation Answer → ShadowStack mode → Proxies → Prop
  | refused (op : Operation) (v : Violation) : Turn g op (.error v) g.shadow g.proxies
  | spared {op : Operation} {a : Except Violation Answer} : op.isCall = false →
      Turn g op a g.shadow g.proxies
  | stored {op : Operation} {slot : Nat} {e : Metadata} {s : ShadowStack mode} :
      op.isCall = false → g.shadow.storeSlot slot e = .ok s →
      Turn g op (.ok .done) s g.proxies
  | pushed {n : Nat} {s : ShadowStack mode} : g.shadow.push n = .ok s →
      Turn g (.pushFrame n) (.ok .done) s g.proxies
  | popped {s : ShadowStack mode} : g.shadow.pop = .ok s →
      Turn g .popFrame (.ok .done) s g.proxies
  | opened {slot : Nat} {span : SlotSpan} {proxy : Word} {p : Proxies} :
      g.shadow.slotSpan slot = .ok span → g.proxies.openSpan span = .ok (proxy, p) →
      Turn g (.openProxy slot) (.ok (.word proxy)) g.shadow p
  | advanced {proxy : Word} {span : SlotSpan} {e : Metadata} {p : Proxies} :
      g.proxies.span proxy = .ok span → g.shadow.readSpan span = some e →
      g.proxies.advance proxy mode.fields = .ok p →
      Turn g (.nextVariadic proxy) (.ok (.entry e)) g.shadow p
  | copied {proxy copy : Word} {p : Proxies} : g.proxies.duplicate proxy = .ok (copy, p) →
      Turn g (.copyProxy proxy) (.ok (.word copy)) g.shadow p
  | closed {proxy : Word} {p : Proxies} : g.proxies.close proxy = .ok p →
      Turn g (.closeProxy proxy) (.ok .done) g.shadow p

/-- The operation does to frames and proxies what its answer tells. -/
def Takes (g : Guard mode) (op : Operation) : Prop :=
  Turn g op ((perform op).run g).1 ((perform op).run g).2.shadow ((perform op).run g).2.proxies

variable {g : Guard mode} {op : Operation}

theorem takes_of_spares (h : Spares (perform op : Guarded mode Answer)) (hop : op.isCall = false) :
    g.Takes op := by
  obtain ⟨hs, hp⟩ := h g
  rw [Takes, hs, hp]
  exact .spared hop

theorem takes_of_keeps
    (h : Keeps (fun g : Guard mode => (g.shadow, g.proxies)) (perform op))
    (hop : op.isCall = false) : g.Takes op :=
  takes_of_spares (spares_iff_keeps.mpr h) hop

theorem takes_of_run {a : Except Violation Answer} {g' : Guard mode}
    (hr : (perform op).run g = (a, g')) (h : Turn g op a g'.shadow g'.proxies) : g.Takes op := by
  rw [Takes, hr]
  exact h

theorem run_quiet_of_ok {act : Guarded mode Unit} {g' : Guard mode}
    (h : act.run g = (.ok (), g')) : (quiet act).run g = (.ok .done, g') :=
  Action.run_bind_of_ok h

theorem run_quiet_of_error {act : Guarded mode Unit} {v : Violation} {g' : Guard mode}
    (h : act.run g = (.error v, g')) : (quiet act).run g = (.error v, g') :=
  Action.run_bind_of_error h

/-- An operation that writes a slot, or does nothing if this fails. -/
theorem takes_of_store {f : ShadowStack mode → Except Violation (ShadowStack mode)}
    (hp : (perform op : Guarded mode Answer) = quiet (onShadow (.update f)))
    (hop : op.isCall = false)
    (hf : ∀ s, f g.shadow = .ok s → ∃ slot e, g.shadow.storeSlot slot e = .ok s) :
    g.Takes op := by
  rw [Takes, hp]
  cases hr : f g.shadow with
  | ok s =>
    obtain ⟨slot, e, hs⟩ := hf s hr
    rw [run_quiet_of_ok (run_updateShadow_of_ok hr)]
    exact .stored hop hs
  | error v =>
    rw [run_quiet_of_error (run_updateShadow_of_error hr)]
    exact .refused op v

theorem propagate_eq_ok {s s' : ShadowStack mode} {source target : Nat}
    (h : s.propagate source target = .ok s') : ∃ e, s.storeSlot target e = .ok s' := by
  unfold ShadowStack.propagate at h
  split at h
  next => cases h
  next e _ => exact ⟨e, h⟩

theorem takes_pushFrame (n : Nat) : g.Takes (.pushFrame n) := by
  cases hr : g.shadow.push n with
  | ok s =>
    have hrun : (pushFrame n).run g = _ := Action.run_bind_of_ok (run_updateShadow_of_ok hr)
    exact takes_of_run (run_quiet_of_ok hrun) (.pushed hr)
  | error v =>
    have hrun : (pushFrame n).run g = _ := Action.run_bind_of_error (run_updateShadow_of_error hr)
    exact takes_of_run (run_quiet_of_error hrun) (.refused _ v)

theorem takes_popFrame : g.Takes .popFrame := by
  cases hr : g.shadow.pop with
  | ok s => exact takes_of_run (run_quiet_of_ok (run_updateShadow_of_ok hr)) (.popped hr)
  | error v => exact takes_of_run (run_quiet_of_error (run_updateShadow_of_error hr)) (.refused _ v)

theorem run_askShadow (f : ShadowStack mode → Except Violation α) (g : Guard mode) :
    (onShadow (.ask f)).run g = (f g.shadow, g) :=
  rfl

theorem run_askProxies (f : Proxies → Except Violation α) (g : Guard mode) :
    (onProxies (.ask f)).run g = (f g.proxies, g) :=
  rfl

theorem takes_openProxy (slot : Nat) : g.Takes (.openProxy slot) := by
  have hask := run_askShadow (·.slotSpan slot) g
  cases hs : g.shadow.slotSpan slot with
  | error v =>
    rw [hs] at hask
    have hrun : (openProxy slot).run g = _ := Action.run_bind_of_error hask
    exact takes_of_run (Action.run_bind_of_error hrun) (.refused _ v)
  | ok span =>
    rw [hs] at hask
    have hbind : (openProxy slot).run g = _ := Action.run_bind_of_ok hask
    cases ho : g.proxies.openSpan span with
    | error v =>
      have hrun : (openProxy slot).run g = (.error v, g) := by
        rw [hbind]
        simp only [onProxies, Action.on, Action.run, ho]
      exact takes_of_run (Action.run_bind_of_error hrun) (.refused _ v)
    | ok opened =>
      obtain ⟨proxy, p⟩ := opened
      have hrun : (openProxy slot).run g = (.ok proxy, { g with proxies := p }) := by
        rw [hbind]
        simp only [onProxies, Action.on, Action.run, ho]
      exact takes_of_run (Action.run_bind_of_ok hrun) (.opened hs ho)

theorem takes_copyProxy (proxy : Word) : g.Takes (.copyProxy proxy) := by
  cases hd : g.proxies.duplicate proxy with
  | error v =>
    have hrun : (copyProxy proxy).run g = (.error v, g) := by
      simp only [copyProxy, onProxies, Action.on, Action.run, hd]
    exact takes_of_run (Action.run_bind_of_error hrun) (.refused _ v)
  | ok copied =>
    obtain ⟨copy, p⟩ := copied
    have hrun : (copyProxy proxy).run g = (.ok copy, { g with proxies := p }) := by
      simp only [copyProxy, onProxies, Action.on, Action.run, hd]
    exact takes_of_run (Action.run_bind_of_ok hrun) (.copied hd)

theorem run_updateProxies_of_ok {f : Proxies → Except Violation Proxies} {p : Proxies}
    (h : f g.proxies = .ok p) :
    (onProxies (.update f)).run g = (.ok (), { g with proxies := p }) := by
  simp only [onProxies, Action.on, Action.run, Action.update, h]

theorem run_updateProxies_of_error {f : Proxies → Except Violation Proxies} {v : Violation}
    (h : f g.proxies = .error v) : (onProxies (.update f)).run g = (.error v, g) := by
  simp only [onProxies, Action.on, Action.run, Action.update, h]

theorem takes_closeProxy (proxy : Word) : g.Takes (.closeProxy proxy) := by
  cases hr : g.proxies.close proxy with
  | ok p => exact takes_of_run (run_quiet_of_ok (run_updateProxies_of_ok hr)) (.closed hr)
  | error v => exact takes_of_run (run_quiet_of_error (run_updateProxies_of_error hr)) (.refused _ v)

/-- A proxy whose span shows nothing stays where it is. -/
theorem run_nextVariadic_of_none {proxy : Word} {span : SlotSpan}
    (hs : g.proxies.span proxy = .ok span) (hr : g.shadow.readSpan span = none) :
    (perform (.nextVariadic proxy)).run g = (.error (.proxyPastFrame proxy), g) := by
  have hask := run_askProxies (·.span proxy) g
  have hread := run_askShadow
    (fun s => (s.readSpan span).elim (.error (.proxyPastFrame proxy)) .ok) g
  rw [hs] at hask
  rw [hr] at hread
  have hrun : (nextVariadic proxy).run g = _ :=
    (Action.run_bind_of_ok hask).trans (Action.run_bind_of_error hread)
  exact Action.run_bind_of_error hrun

theorem run_nextVariadic_of_some {proxy : Word} {span : SlotSpan} {e : Metadata} {p : Proxies}
    (hs : g.proxies.span proxy = .ok span) (hr : g.shadow.readSpan span = some e)
    (ha : g.proxies.advance proxy mode.fields = .ok p) :
    (perform (.nextVariadic proxy)).run g = (.ok (.entry e), { g with proxies := p }) := by
  have hask := run_askProxies (·.span proxy) g
  have hread := run_askShadow
    (fun s => (s.readSpan span).elim (.error (.proxyPastFrame proxy)) .ok) g
  rw [hs] at hask
  rw [hr] at hread
  have hrun : (nextVariadic proxy).run g = _ :=
    (Action.run_bind_of_ok hask).trans ((Action.run_bind_of_ok hread).trans
      (Action.run_bind_of_ok (run_updateProxies_of_ok ha)))
  exact Action.run_bind_of_ok hrun

theorem takes_nextVariadic (proxy : Word) : g.Takes (.nextVariadic proxy) := by
  cases hs : g.proxies.span proxy with
  | error v =>
    have hask := run_askProxies (·.span proxy) g
    rw [hs] at hask
    have hrun : (nextVariadic proxy).run g = _ := Action.run_bind_of_error hask
    exact takes_of_run (Action.run_bind_of_error hrun) (.refused _ v)
  | ok span =>
    cases hr : g.shadow.readSpan span with
    | none => exact takes_of_run (run_nextVariadic_of_none hs hr) (.refused _ _)
    | some e =>
      obtain ⟨p, ha⟩ := Proxies.advance_of_span hs mode.fields
      exact takes_of_run (run_nextVariadic_of_some hs hr ha) (.advanced hs hr ha)

/-- What every operation does to frames and proxies. -/
theorem takes_perform (g : Guard mode) (op : Operation) : g.Takes op := by
  cases op with
  | storeMetadata addr e => exact takes_of_keeps (overlooks_calls.storeMetadata addr e).quiet rfl
  | loadMetadata addr =>
    exact takes_of_keeps ((overlooks_calls.loadMetadata addr).bind fun _ => .pure _) rfl
  | copyMetadata dest src len =>
    exact takes_of_keeps ((overlooks_calls.copyMetadata dest src len).bind fun _ => .pure _) rfl
  | preallocate addr => exact takes_of_keeps (overlooks_calls.onTrie _).quiet rfl
  | preallocateRange start len => exact takes_of_keeps (overlooks_calls.onTrie _).quiet rfl
  | storeLane vector index e =>
    exact takes_of_keeps (overlooks_calls.storeLane vector index e).quiet rfl
  | loadLane vector index =>
    exact takes_of_keeps ((overlooks_calls.loadLane vector index).bind fun _ => .pure _) rfl
  | registerStrings vector strings =>
    exact takes_of_keeps ((overlooks_calls.registerStrings vector strings).bind fun _ => .pure _) rfl
  | attachProxy addr proxy =>
    exact takes_of_keeps (overlooks_calls.count_bind rfl (overlooks_calls.onTrie _)).quiet rfl
  | attachedProxy addr =>
    exact takes_of_keeps ((overlooks_calls.count_bind rfl (overlooks_calls.onTrie _)).bind
      fun _ => .pure _) rfl
  | pushFrame n => exact takes_pushFrame n
  | popFrame => exact takes_popFrame
  | loadSlot slot => exact takes_of_spares ((Spares.askShadow _).bind fun _ => .pure _) rfl
  | storeSlot slot e => exact takes_of_store rfl rfl fun s h => ⟨slot, e, h⟩
  | propagateSlot source target =>
    exact takes_of_store rfl rfl fun s h => ⟨target, propagate_eq_ok h⟩
  | storeReturn e =>
    exact takes_of_store (f := (·.storeSlot 0 e)) rfl rfl fun s h => ⟨0, e, h⟩
  | storeNullReturn =>
    exact takes_of_store (f := (·.storeSlot 0 .unknown)) rfl rfl fun s h => ⟨0, .unknown, h⟩
  | openProxy slot => exact takes_openProxy slot
  | nextVariadic proxy => exact takes_nextVariadic proxy
  | copyProxy proxy => exact takes_copyProxy proxy
  | closeProxy proxy => exact takes_closeProxy proxy
  | storeProxySlot slot proxy => exact takes_of_store rfl rfl fun s h => ⟨slot, mode.ofWord proxy, h⟩
  | loadProxySlot slot => exact takes_of_spares ((Spares.askShadow _).bind fun _ => .pure _) rfl
  | allocate ptr => exact takes_of_spares ((spares_allocate ptr).bind fun _ => .pure _) rfl
  | allocateObject ptr size =>
    exact takes_of_spares ((spares_allocateObject ptr size).bind fun _ => .pure _) rfl
  | deallocate ptr key lock =>
    exact takes_of_spares (((Spares.onLifetimes _ _).bind fun _ => .count _).quiet) rfl
  | relocate old new key => exact takes_of_spares (Spares.onLifetimes _ _).quiet rfl
  | stackAllocate =>
    exact takes_of_spares ((Spares.count_bind (.onLifetimes _ _)).bind fun _ => .pure _) rfl
  | stackDeallocate key =>
    exact takes_of_spares (((Spares.onLifetimes _ _).bind fun _ => .count _).quiet) rfl
  | checkSpatial ptr width base bound =>
    exact takes_of_keeps (overlooks_calls.checkSpatial ptr width base bound).quiet rfl
  | checkTemporal key lock => exact takes_of_keeps (overlooks_calls.checkTemporal key lock).quiet rfl
  | checkDereference ptr width e =>
    exact takes_of_keeps (overlooks_calls.checkDereference ptr width e).quiet rfl
  | checkDereferenceVia witness ptr width =>
    exact takes_of_keeps ((overlooks_calls.loadMetadata witness).bind
      (overlooks_calls.checkDereference ptr width)).quiet rfl
  | checkCall ptr e => exact takes_of_keeps (overlooks_calls.checkCall ptr e).quiet rfl
  | checkCopy dest src len destEntry srcEntry =>
    exact takes_of_keeps ((overlooks_calls.checkDereference dest len destEntry).bind fun _ =>
      overlooks_calls.checkDereference src len srcEntry).quiet rfl
  | checkFill dest len e =>
    exact takes_of_keeps (overlooks_calls.checkDereference dest len e).quiet rfl
  | introspect ptr e slot => exact takes_of_spares (.read _) rfl
  | globalLock => exact takes_of_spares (.read _) rfl
  | wideMetadata => exact takes_of_spares (.read _) rfl
  | stackLockPolicy => exact takes_of_spares (.read _) rfl
  | isInstalled addr => exact takes_of_spares (.read _) rfl
  | snapshot => exact takes_of_spares (.read _) rfl
  | describe => exact takes_of_spares (.read _) rfl

end Guard

end PointerGuard
