import PointerGuard.Proofs.Guard.Effects

namespace PointerGuard

/-- The counter counts heap or stack objects. -/
def Counter.ofObjects : Counter → Bool
  | .heapAllocations => true
  | .heapDeallocations => true
  | .stackAllocations => true
  | .stackDeallocations => true
  | _ => false

namespace Guard

variable {mode : Mode} {α β γ : Type} {f : Guard mode → γ}

/-- However it ends, the step keeps what `f` reads. -/
def Keeps (f : Guard mode → γ) (act : Guarded mode α) : Prop := ∀ g, f (act.run g).2 = f g

/-- `f` reads neither the trie nor any counter but those of objects. -/
structure Overlooks (f : Guard mode → γ) : Prop where
  trie : ∀ g t, f { g with trie := t } = f g
  metrics : ∀ g c, c.ofObjects = false → f { g with metrics := g.metrics.bump c } = f g

namespace Keeps

variable {act : Guarded mode α} {next : α → Guarded mode β}

theorem pure (a : α) : Keeps f (pure a : Guarded mode α) :=
  fun _ => rfl

theorem ask (test : Guard mode → Except Violation α) :
    Keeps f (Action.ask test : Guarded mode α) :=
  fun _ => rfl

theorem read (get : Guard mode → α) : Keeps f (Action.read get : Guarded mode α) :=
  fun _ => rfl

theorem orFail (v : Violation) (o : Option α) : Keeps f (Action.orFail v o : Guarded mode α) := by
  cases o with
  | none => exact fun _ => rfl
  | some a => exact pure a

/-- What comes after keeps it, so it does not matter whether it is reached. -/
theorem run_bind (hn : ∀ a, Keeps f (next a)) (g : Guard mode) :
    f ((act >>= next).run g).2 = f (act.run g).2 := by
  cases hr : act.run g with
  | mk r g' =>
    cases r with
    | error v => rw [Action.run_bind_of_error hr]
    | ok a =>
      rw [Action.run_bind_of_ok hr]
      exact hn a g'

theorem bind (h : Keeps f act) (hn : ∀ a, Keeps f (next a)) : Keeps f (act >>= next) :=
  fun g => (run_bind hn g).trans (h g)

theorem quiet {act : Guarded mode Unit} (h : Keeps f act) : Keeps f (quiet act) :=
  h.bind fun _ => pure _

theorem onLifetimes (hf : ∀ g l, f { g with lifetimes := l } = f g) (absent : α)
    (act : Action Violation Lifetimes α) : Keeps f (onLifetimes absent act) := by
  intro g
  cases hl : g.lifetimes with
  | none => simp only [Action.run, Guard.onLifetimes, hl]
  | some l =>
    rw [run_onLifetimes hl]
    exact hf g _

end Keeps

namespace Overlooks

variable (hf : Overlooks f)
include hf

theorem onTrie (act : Action Violation (Trie mode) α) : Keeps f (Guard.onTrie act) :=
  fun g => hf.trie g _

theorem count {c : Counter} (hc : c.ofObjects = false) : Keeps f (Guard.count c) :=
  fun g => hf.metrics g c hc

theorem count_bind {c : Counter} {act : Guarded mode α} (hc : c.ofObjects = false)
    (h : Keeps f act) : Keeps f (Guard.count c >>= fun _ => act) :=
  (hf.count hc).bind fun _ => h

theorem storeMetadata (addr : Word) (e : Metadata) : Keeps f (Guard.storeMetadata addr e) :=
  hf.count_bind rfl (hf.onTrie _)

theorem loadMetadata (addr : Word) : Keeps f (Guard.loadMetadata addr) :=
  hf.count_bind rfl (hf.onTrie _)

theorem copyMetadata (dest src len : Word) : Keeps f (Guard.copyMetadata dest src len) := by
  refine (hf.onTrie _).bind fun n => ?_
  by_cases hn : 0 < n
  · rw [if_pos hn]
    exact hf.count_bind rfl (.pure n)
  · rw [if_neg hn]
    exact .pure n

theorem storeLane (vector : Word) (index : Nat) (e : Metadata) :
    Keeps f (Guard.storeLane vector index e) :=
  (Keeps.ask _).bind fun lane => hf.storeMetadata lane e

theorem loadLane (vector : Word) (index : Nat) : Keeps f (Guard.loadLane vector index) :=
  (Keeps.ask _).bind fun lane => hf.loadMetadata lane

theorem storeStrings (vector : Word) (index : Nat) (strings : List (Word × Word)) :
    Keeps f (Guard.storeStrings vector index strings) := by
  induction strings generalizing index with
  | nil => exact .pure _
  | cons string strings ih =>
    exact (Keeps.ask _).bind fun bound => (Keeps.read _).bind fun lock =>
      (hf.storeLane vector index _).bind fun _ => ih (index + 1)

theorem registerStrings (vector : Word) (strings : List (Word × Word)) :
    Keeps f (Guard.registerStrings vector strings) :=
  (hf.storeStrings vector 0 strings).bind fun _ => (Keeps.ask _).bind fun _ =>
    (Keeps.read _).bind fun _ => .pure _

theorem checkSpatial (ptr width base bound : Word) :
    Keeps f (Guard.checkSpatial ptr width base bound) :=
  hf.count_bind rfl (.ask _)

theorem checkTemporal (key lock : Word) : Keeps f (Guard.checkTemporal key lock) :=
  hf.count_bind rfl (.ask _)

theorem checkDereference (ptr width : Word) (e : Metadata) :
    Keeps f (Guard.checkDereference ptr width e) := by
  cases mode with
  | spatial => exact (hf.checkSpatial ptr width e.base e.bound).bind fun _ => .pure ()
  | temporal => exact hf.checkTemporal e.key e.lock
  | combined =>
    exact (hf.checkSpatial ptr width e.base e.bound).bind fun _ => hf.checkTemporal e.key e.lock

theorem checkCall (ptr : Word) (e : Metadata) : Keeps f (Guard.checkCall ptr e) := by
  refine hf.count_bind rfl ?_
  cases mode with
  | spatial => exact .ask _
  | temporal => exact .pure ()
  | combined => exact .ask _

end Overlooks

end Guard

end PointerGuard
