import PointerGuard.Guard.Operation
import PointerGuard.Proofs.Lifetimes.Requests
import PointerGuard.Proofs.Trie.Copies

namespace PointerGuard

/-- The words whose entries an operation may change. -/
def Operation.Writes : Operation → Nat → Prop
  | .storeMetadata addr _, k => k = wordOf addr
  | .attachProxy addr _, k => k = wordOf addr
  | .storeLane vector index _, k => k = wordOf vector + index
  | .registerStrings vector strings, k => ∃ i < strings.length, k = wordOf vector + i
  | .copyMetadata dest _ len, k => ∃ i < len.toNat / 8, k = wordOf dest + i
  | _, _ => False

theorem Action.run_update_of_ok {ε σ : Type} {f : σ → Except ε σ} {s s' : σ} (h : f s = .ok s') :
    (Action.update f).run s = (.ok (), s') := by
  simp only [Action.run, Action.update, h]

theorem Action.run_update_of_error {ε σ : Type} {f : σ → Except ε σ} {s : σ} {e : ε}
    (h : f s = .error e) : (Action.update f).run s = (.error e, s) := by
  simp only [Action.run, Action.update, h]

theorem Action.run_test_bind_of_ok {ε σ α β : Type} {x : Except ε α} {next : α → Action ε σ β}
    {s : σ} {a : α} (h : x = .ok a) : (ask (fun _ => x) >>= next).run s = (next a).run s :=
  run_bind_of_ok (by rw [h]; rfl)

theorem Action.run_test_bind_of_error {ε σ α β : Type} {x : Except ε α}
    {next : α → Action ε σ β} {s : σ} {e : ε} (h : x = .error e) :
    (ask (fun _ => x) >>= next).run s = (.error e, s) :=
  run_bind_of_error (by rw [h]; rfl)

theorem Action.run_read_bind {ε σ α β : Type} {next : α → Action ε σ β} {s : σ} (f : σ → α) :
    (read f >>= next).run s = (next (f s)).run s :=
  rfl

theorem Action.run_bind_eq_ok_iff {ε σ α β : Type} {act : Action ε σ α}
    {next : α → Action ε σ β} {s : σ} {b : β} :
    ((act >>= next).run s).1 = .ok b ↔
      ∃ a, (act.run s).1 = .ok a ∧ ((next a).run (act.run s).2).1 = .ok b := by
  cases hr : act.run s with
  | mk r s' =>
    cases r with
    | error e =>
      rw [Action.run_bind_of_error hr]
      simp
    | ok a =>
      rw [Action.run_bind_of_ok hr]
      simp

namespace Guard

variable {mode : Mode} {α β : Type} {W : Nat → Prop}

open Lifetimes (Request)

/-- The requests that an operation makes to the lifetimes. -/
def requests (g : Guard mode) : Operation → List Request
  | .allocate ptr => if (g.trie.preallocate ptr).1.isOk then [.allocate ptr] else []
  | .allocateObject ptr _ => if (g.trie.preallocate ptr).1.isOk then [.allocate ptr] else []
  | .deallocate ptr key lock => [.deallocate ptr key lock]
  | .relocate old new key => [.relocate old new key]
  | .stackAllocate => [.stackAllocate]
  | .stackDeallocate key => [.stackDeallocate key]
  | _ => []

theorem requests_allocate (g : Guard mode) (ptr : Word) : g.requests (.allocate ptr)
    = if (g.trie.preallocate ptr).1.isOk then [.allocate ptr] else [] :=
  rfl

/-- `g'` comes from `g` by these requests, and by writes to words in `W`. -/
structure Effect (W : Nat → Prop) (rs : List Request) (g g' : Guard mode) : Prop where
  config : g'.config = g.config
  trie : g.trie.Outside W g'.trie
  lifetimes : g'.lifetimes = g.lifetimes.map (·.after rs)

/-- However it ends, the step makes these requests. -/
def Causes (W : Nat → Prop) (rs : List Request) (act : Guarded mode α) : Prop :=
  ∀ g, Effect W rs g (act.run g).2

namespace Effect

variable {g g₁ g₂ : Guard mode} {rs qs : List Request}

theorem refl (W : Nat → Prop) (g : Guard mode) : Effect W [] g g :=
  ⟨rfl, .refl W _, (Option.map_id' ..).symm⟩

theorem trans (h : Effect W rs g g₁) (h' : Effect W qs g₁ g₂) : Effect W (rs ++ qs) g g₂ where
  config := h'.config.trans h.config
  trie := h.trie.trans h'.trie
  lifetimes := by
    rw [h'.lifetimes, h.lifetimes, Option.map_map]
    exact congrArg (g.lifetimes.map ·) (funext fun l => (l.after_append rs qs).symm)

/-- What comes after makes no request, so it does not matter whether it is reached. -/
theorem bind {act : Guarded mode α} {next : α → Guarded mode β}
    (h : Effect W rs g (act.run g).2) (hn : ∀ a, Causes W [] (next a)) :
    Effect W rs g ((act >>= next).run g).2 := by
  cases hr : act.run g with
  | mk r g' =>
    rw [hr] at h
    cases r with
    | error v =>
      rw [Action.run_bind_of_error hr]
      exact h
    | ok a =>
      rw [Action.run_bind_of_ok hr]
      exact List.append_nil rs ▸ h.trans (hn a g')

end Effect

theorem run_updateTrie_of_ok {g : Guard mode} {f : Trie mode → Except Violation (Trie mode)}
    {t : Trie mode} (h : f g.trie = .ok t) :
    (onTrie (.update f)).run g = (.ok (), { g with trie := t }) := by
  simp only [onTrie, Action.on, Action.run, Action.update, h]

theorem run_updateTrie_of_error {g : Guard mode} {f : Trie mode → Except Violation (Trie mode)}
    {v : Violation} (h : f g.trie = .error v) : (onTrie (.update f)).run g = (.error v, g) := by
  simp only [onTrie, Action.on, Action.run, Action.update, h]

theorem run_onLifetimes {g : Guard mode} {l : Lifetimes} (hl : g.lifetimes = some l) (absent : α)
    (act : Action Violation Lifetimes α) : (onLifetimes absent act).run g
      = ((act.run l).1, { g with lifetimes := some (act.run l).2 }) := by
  simp only [Action.run, onLifetimes, hl]

theorem run_count (c : Counter) (g : Guard mode) :
    (count c).run g = (.ok (), { g with metrics := g.metrics.bump c }) :=
  rfl

namespace Causes

variable {rs qs : List Request} {act : Guarded mode α} {next : α → Guarded mode β}

theorem pure (W : Nat → Prop) (a : α) : Causes W [] (pure a : Guarded mode α) :=
  fun g => .refl W g

theorem ask (W : Nat → Prop) (f : Guard mode → Except Violation α) :
    Causes W [] (Action.ask f : Guarded mode α) :=
  fun g => .refl W g

theorem read (W : Nat → Prop) (f : Guard mode → α) :
    Causes W [] (Action.read f : Guarded mode α) :=
  fun g => .refl W g

theorem fail (W : Nat → Prop) (v : Violation) : Causes W [] (Action.fail v : Guarded mode α) :=
  fun g => .refl W g

theorem orFail (W : Nat → Prop) (v : Violation) (o : Option α) :
    Causes W [] (Action.orFail v o : Guarded mode α) := by
  cases o with
  | none => exact fail W v
  | some a => exact pure W a

theorem bind (h : Causes W rs act) (hn : ∀ a, Causes W [] (next a)) :
    Causes W rs (act >>= next) :=
  fun g => (h g).bind hn

/-- What comes after a test may rely on it. -/
theorem test_bind {x : Except Violation α} (hn : ∀ a, x = .ok a → Causes W [] (next a)) :
    Causes W [] (Action.ask (fun _ => x) >>= next) := by
  intro g
  cases hx : x with
  | error v => exact .refl W g
  | ok a => exact hn a hx g

theorem count (W : Nat → Prop) (c : Counter) : Causes W [] (count c : Guarded mode Unit) :=
  fun _ => ⟨rfl, .refl W _, (Option.map_id' ..).symm⟩

theorem onShadow (W : Nat → Prop) (step : Action Violation (ShadowStack mode) α) :
    Causes W [] (onShadow step) :=
  fun _ => ⟨rfl, .refl W _, (Option.map_id' ..).symm⟩

theorem onProxies (W : Nat → Prop) (step : Action Violation Proxies α) :
    Causes W [] (onProxies step : Guarded mode α) :=
  fun _ => ⟨rfl, .refl W _, (Option.map_id' ..).symm⟩

theorem onTrie {step : Action Violation (Trie mode) α}
    (h : ∀ t : Trie mode, t.Outside W (step.run t).2) : Causes W [] (onTrie step) :=
  fun g => ⟨rfl, h g.trie, (Option.map_id' ..).symm⟩

theorem updateTrie {f : Trie mode → Except Violation (Trie mode)}
    (h : ∀ t t', f t = .ok t' → t.Outside W t') : Causes W [] (Guard.onTrie (.update f)) := by
  refine onTrie fun t => ?_
  cases hf : f t with
  | ok t' =>
    rw [Action.run_update_of_ok hf]
    exact h t t' hf
  | error v =>
    rw [Action.run_update_of_error hf]
    exact .refl W t

theorem onLifetimes {absent : α} {r : Request} {act : Action Violation Lifetimes α}
    (h : ∀ l : Lifetimes, (act.run l).2 = l.step r) :
    Causes W [r] (onLifetimes absent act : Guarded mode α) := by
  intro g
  cases hl : g.lifetimes with
  | none =>
    simp only [Action.run, Guard.onLifetimes, hl]
    exact ⟨rfl, .refl W _, by rw [hl]; rfl⟩
  | some l =>
    rw [run_onLifetimes hl]
    exact ⟨rfl, .refl W _, by rw [hl]; exact congrArg some (h l)⟩

theorem updateLifetimes {r : Request} {f : Lifetimes → Except Violation Lifetimes}
    (hok : ∀ l l', f l = .ok l' → l.step r = l') (herror : ∀ l v, f l = .error v → l.step r = l) :
    Causes W [r] (Guard.onLifetimes () (.update f) : Guarded mode Unit) := by
  refine onLifetimes fun l => ?_
  cases h : f l with
  | ok l' => rw [Action.run_update_of_ok h, hok l l' h]
  | error v => rw [Action.run_update_of_error h, herror l v h]

/-- Counting fails never, so what comes after is reached. -/
theorem count_bind {c : Counter} {act : Guarded mode α} (h : Causes W rs act) :
    Causes W rs (Guard.count c >>= fun _ => act) := by
  intro g
  rw [Action.run_bind_of_ok (run_count c g)]
  exact (count W c g).trans (h _)

theorem quiet {act : Guarded mode Unit} (h : Causes W rs act) : Causes W rs (quiet act) :=
  h.bind fun _ => pure W _

end Causes

theorem causes_storeMetadata {addr : Word} (e : Metadata) (hw : W (wordOf addr)) :
    Causes W [] (storeMetadata addr e : Guarded mode Unit) :=
  (Causes.count W _).bind fun _ => Causes.updateTrie fun _ _ h => .store h hw

theorem causes_loadMetadata (W : Nat → Prop) (addr : Word) :
    Causes W [] (loadMetadata addr : Guarded mode Metadata) :=
  (Causes.count W _).bind fun _ => Causes.onTrie fun t => .refl W t

theorem causes_copyMetadata {dest len : Word} (src : Word)
    (hw : ∀ j < len.toNat / 8, W (wordOf dest + j)) :
    Causes W [] (copyMetadata dest src len : Guarded mode Nat) := by
  refine (Causes.onTrie fun t => .copyMetadata hw).bind fun n => ?_
  by_cases hn : 0 < n
  · rw [if_pos hn]
    exact (Causes.count W _).bind fun _ => Causes.pure W n
  · rw [if_neg hn]
    exact Causes.pure W n

theorem wordOf_laneAddress {base lane : Word} {index : Nat}
    (h : laneAddress base index = .ok lane) : wordOf lane = wordOf base + index := by
  unfold laneAddress at h
  split at h
  next hfit =>
    cases Except.ok.inj h
    exact Trie.wordOf_wordAt hfit
  next => simp at h

theorem causes_storeLane {vector : Word} {index : Nat} (e : Metadata)
    (hw : W (wordOf vector + index)) :
    Causes W [] (storeLane vector index e : Guarded mode Unit) :=
  Causes.test_bind fun _ h => causes_storeMetadata e (wordOf_laneAddress h ▸ hw)

theorem causes_storeStrings {vector : Word} {index : Nat} {strings : List (Word × Word)}
    (hw : ∀ i < strings.length, W (wordOf vector + (index + i))) :
    Causes W [] (storeStrings vector index strings : Guarded mode Unit) := by
  induction strings generalizing index with
  | nil => exact Causes.pure W _
  | cons string strings ih =>
    refine (Causes.ask W _).bind fun bound => (Causes.read W _).bind fun lock =>
      (causes_storeLane _ (hw 0 (by simp))).bind fun _ => ih fun i hi => ?_
    rw [Nat.add_assoc, Nat.add_comm 1 i]
    exact hw (i + 1) (by simpa using hi)

theorem causes_checkSpatial (W : Nat → Prop) (ptr width base bound : Word) :
    Causes W [] (checkSpatial ptr width base bound : Guarded mode Unit) :=
  (Causes.count W _).bind fun _ => .ask W _

theorem causes_checkTemporal (W : Nat → Prop) (key lock : Word) :
    Causes W [] (checkTemporal key lock : Guarded mode Unit) :=
  (Causes.count W _).bind fun _ => .ask W _

theorem causes_checkDereference (W : Nat → Prop) (ptr width : Word) (e : Metadata) :
    Causes W [] (checkDereference ptr width e : Guarded mode Unit) := by
  cases mode with
  | spatial => exact (causes_checkSpatial W ptr width e.base e.bound).bind fun _ => .pure W ()
  | temporal => exact causes_checkTemporal W e.key e.lock
  | combined =>
    exact (causes_checkSpatial W ptr width e.base e.bound).bind fun _ =>
      causes_checkTemporal W e.key e.lock

theorem causes_checkCall (W : Nat → Prop) (ptr : Word) (e : Metadata) :
    Causes W [] (checkCall ptr e : Guarded mode Unit) := by
  refine (Causes.count W _).bind fun _ => ?_
  cases mode with
  | spatial => exact .ask W _
  | temporal => exact .pure W ()
  | combined => exact .ask W _

theorem causes_registerStrings {vector : Word} {strings : List (Word × Word)}
    (hw : ∀ i < strings.length, W (wordOf vector + i)) :
    Causes W [] (registerStrings vector strings : Guarded mode Metadata) := by
  refine (causes_storeStrings fun i hi => ?_).bind fun _ => (Causes.ask W _).bind fun _ =>
    (Causes.read W _).bind fun _ => .pure W _
  rw [Nat.zero_add]
  exact hw i hi

theorem causes_attachProxy {addr : Word} (proxy : Word) (hw : W (wordOf addr)) :
    Causes W [] (attachProxy addr proxy : Guarded mode Unit) :=
  (Causes.count W _).bind fun _ => Causes.updateTrie fun _ _ h => .store h hw

theorem causes_attachedProxy (W : Nat → Prop) (addr : Word) :
    Causes W [] (attachedProxy addr : Guarded mode Word) :=
  (Causes.count W _).bind fun _ => Causes.onTrie fun t => .refl W t

theorem causes_storeSlot (W : Nat → Prop) (slot : Nat) (e : Metadata) :
    Causes W [] (storeSlot slot e : Guarded mode Unit) :=
  .onShadow W _

theorem causes_nextVariadic (W : Nat → Prop) (proxy : Word) :
    Causes W [] (nextVariadic proxy : Guarded mode Metadata) :=
  (Causes.onProxies W _).bind fun _ => (Causes.onShadow W _).bind fun _ =>
    (Causes.onProxies W _).bind fun _ => .pure W _

theorem causes_deallocate (W : Nat → Prop) (ptr key lock : Word) :
    Causes W [.deallocate ptr key lock] (deallocate ptr key lock : Guarded mode Unit) :=
  (Causes.updateLifetimes (fun _ _ h => Lifetimes.step_deallocate_of_ok h)
    fun _ _ h => Lifetimes.step_deallocate_of_error h).bind fun _ => .count W _

theorem causes_stackDeallocate (W : Nat → Prop) (key : Word) :
    Causes W [.stackDeallocate key] (stackDeallocate key : Guarded mode Unit) :=
  (Causes.updateLifetimes (fun _ _ h => Lifetimes.step_stackDeallocate_of_ok h)
    fun _ _ h => Lifetimes.step_stackDeallocate_of_error h).bind fun _ => .count W _

theorem causes_relocate (W : Nat → Prop) (old new key : Word) :
    Causes W [.relocate old new key] (relocate old new key : Guarded mode Unit) :=
  Causes.onLifetimes fun l => (l.step_relocate old new key).symm

theorem causes_stackAllocate (W : Nat → Prop) :
    Causes W [.stackAllocate] (stackAllocate : Guarded mode Lease) := by
  refine Causes.count_bind (Causes.onLifetimes fun l => ?_)
  simp only [Action.run]
  cases h : l.stackAllocate with
  | ok p => exact (Lifetimes.step_stackAllocate_of_ok h).symm
  | error v => exact (Lifetimes.step_stackAllocate_of_error h).symm

theorem run_preallocate_of_fst {g : Guard mode} {ptr : Word} {r : Except Violation Unit}
    (h : (g.trie.preallocate ptr).1 = r) :
    (preallocate ptr).run g = (r, { g with trie := (g.trie.preallocate ptr).2 }) := by
  rw [← h]
  rfl

theorem effect_allocate (W : Nat → Prop) (ptr : Word) (g : Guard mode) :
    Effect W (g.requests (.allocate ptr)) g ((allocate ptr).run g).2 := by
  have htail : Causes W [.allocate ptr]
      (do count .heapAllocations; onLifetimes default (·.allocate ptr) : Guarded mode Lease) :=
    Causes.count_bind (Causes.onLifetimes fun l => (l.step_allocate ptr).symm)
  have hpre : Effect W [] g { g with trie := (g.trie.preallocate ptr).2 } :=
    ⟨rfl, .preallocate ptr, (Option.map_id' ..).symm⟩
  rw [requests_allocate, allocate]
  cases h : (g.trie.preallocate ptr).1 with
  | error v =>
    rw [Action.run_bind_of_error (run_preallocate_of_fst h)]
    exact hpre
  | ok _ =>
    rw [Action.run_bind_of_ok (run_preallocate_of_fst h)]
    exact hpre.trans (htail _)

theorem effect_allocateObject (W : Nat → Prop) (ptr size : Word) (g : Guard mode) :
    Effect W (g.requests (.allocateObject ptr size)) g ((allocateObject ptr size).run g).2 :=
  (effect_allocate W ptr g).bind fun _ => (Causes.orFail W _ _).bind fun _ => .pure W _

/-- An operation writes the words that it names at most. -/
theorem effect_perform (op : Operation) (g : Guard mode) :
    Effect op.Writes (g.requests op) g ((perform op).run g).2 := by
  revert g
  generalize hW : op.Writes = W
  have hlane (base : Word) (i : Nat) :
      Causes W [] (Action.ask fun _ : Guard mode => laneAddress base i) := .ask W _
  cases op with
  | storeMetadata addr e => exact Causes.quiet (causes_storeMetadata e (hW ▸ rfl))
  | loadMetadata addr => exact (causes_loadMetadata W addr).bind fun _ => .pure W _
  | copyMetadata dest src len =>
    exact (causes_copyMetadata src fun j hj => hW ▸ ⟨j, hj, rfl⟩).bind fun _ => .pure W _
  | preallocate addr => exact (Causes.onTrie fun _ => .preallocate addr).quiet
  | preallocateRange start len =>
    exact (Causes.onTrie fun _ => .preallocateRange start len).quiet
  | storeLane vector index e => exact Causes.quiet (causes_storeLane e (hW ▸ rfl))
  | loadLane vector index =>
    exact ((hlane vector index).bind fun lane => causes_loadMetadata W lane).bind fun _ => .pure W _
  | registerStrings vector strings =>
    exact (causes_registerStrings fun i hi => hW ▸ ⟨i, hi, rfl⟩).bind fun _ => .pure W _
  | attachProxy addr proxy => exact Causes.quiet (causes_attachProxy proxy (hW ▸ rfl))
  | attachedProxy addr => exact (causes_attachedProxy W addr).bind fun _ => .pure W _
  | pushFrame slots => exact ((Causes.onShadow W _).bind fun _ => .count W _).quiet
  | popFrame => exact (Causes.onShadow W _).quiet
  | loadSlot slot => exact (Causes.onShadow W _).bind fun _ => .pure W _
  | storeSlot slot e => exact (causes_storeSlot W slot e).quiet
  | propagateSlot source target => exact (Causes.onShadow W _).quiet
  | storeReturn e => exact Causes.quiet (causes_storeSlot W 0 e)
  | storeNullReturn => exact Causes.quiet (causes_storeSlot W 0 .unknown)
  | openProxy slot =>
    exact ((Causes.onShadow W _).bind fun _ => .onProxies W _).bind fun _ => .pure W _
  | nextVariadic proxy => exact (causes_nextVariadic W proxy).bind fun _ => .pure W _
  | copyProxy proxy => exact (Causes.onProxies W _).bind fun _ => .pure W _
  | closeProxy proxy => exact (Causes.onProxies W _).quiet
  | storeProxySlot slot proxy => exact (Causes.onShadow W _).quiet
  | loadProxySlot slot => exact (Causes.onShadow W _).bind fun _ => .pure W _
  | allocate ptr => exact fun g => (effect_allocate W ptr g).bind fun _ => .pure W _
  | allocateObject ptr size =>
    exact fun g => (effect_allocateObject W ptr size g).bind fun _ => .pure W _
  | deallocate ptr key lock => exact (causes_deallocate W ptr key lock).quiet
  | relocate old new key => exact (causes_relocate W old new key).quiet
  | stackAllocate => exact (causes_stackAllocate W).bind fun _ => .pure W _
  | stackDeallocate key => exact (causes_stackDeallocate W key).quiet
  | checkSpatial ptr width base bound => exact (causes_checkSpatial W ptr width base bound).quiet
  | checkTemporal key lock => exact (causes_checkTemporal W key lock).quiet
  | checkDereference ptr width e => exact (causes_checkDereference W ptr width e).quiet
  | checkDereferenceVia witness ptr width =>
    exact ((causes_loadMetadata W witness).bind (causes_checkDereference W ptr width)).quiet
  | checkCall ptr e => exact (causes_checkCall W ptr e).quiet
  | checkCopy dest src len destEntry srcEntry =>
    exact ((causes_checkDereference W dest len destEntry).bind fun _ =>
      causes_checkDereference W src len srcEntry).quiet
  | checkFill dest len e => exact (causes_checkDereference W dest len e).quiet
  | introspect ptr e slot => exact Causes.read W _
  | globalLock => exact Causes.read W _
  | wideMetadata => exact Causes.read W _
  | stackLockPolicy => exact Causes.read W _
  | isInstalled addr => exact Causes.read W _
  | snapshot => exact Causes.read W _
  | describe => exact Causes.read W _

/-- A run leaves the words alone that none of its operations names. -/
theorem outside_after (g : Guard mode) (ops : List Operation)
    (hw : ∀ op ∈ ops, ∀ k, op.Writes k → W k) : g.trie.Outside W (g.after ops).trie := by
  induction ops generalizing g with
  | nil => exact .refl W _
  | cons op ops ih =>
    have hop := (effect_perform op g).trie.mono (hw op (List.mem_cons_self ..))
    exact hop.trans (ih _ fun op' hm => hw op' (List.mem_cons_of_mem _ hm))

theorem sound_after {g : Guard mode} (h : g.trie.Sound) (ops : List Operation) :
    (g.after ops).trie.Sound :=
  (g.outside_after (W := fun _ => True) ops fun _ _ _ _ => trivial).sound h

theorem config_after (g : Guard mode) (ops : List Operation) : (g.after ops).config = g.config :=
  Runs.foldl_invariant (I := fun g' : Guard mode => g'.config = g.config)
    (fun g' op h => (effect_perform op g').config.trans h) ops rfl

end Guard

end PointerGuard
