namespace PointerGuard

/-- A step on a state `σ` that answers an `α` or fails with an `ε`. -/
def Action (ε σ α : Type) : Type := σ → Except ε α × σ

namespace Action

variable {ε σ τ α β : Type}

def run (act : Action ε σ α) (s : σ) : Except ε α × σ := act s

instance : Monad (Action ε σ) where
  pure a := fun s => (.ok a, s)
  bind act next := fun s =>
    match act s with
    | (.ok a, s') => next a s'
    | (.error e, s') => (.error e, s')

def fail (e : ε) : Action ε σ α := fun s => (.error e, s)

def read (f : σ → α) : Action ε σ α := fun s => (.ok (f s), s)

def modify (f : σ → σ) : Action ε σ Unit := fun s => (.ok (), f s)

def ask (f : σ → Except ε α) : Action ε σ α := fun s => (f s, s)

/-- A change of the state that happens only if it succeeds. -/
def update (f : σ → Except ε σ) : Action ε σ Unit := fun s =>
  match f s with
  | .ok s' => (.ok (), s')
  | .error e => (.error e, s)

def on (get : σ → τ) (put : σ → τ → σ) (act : Action ε τ α) : Action ε σ α := fun s =>
  match act (get s) with
  | (r, t) => (r, put s t)

def orFail (e : ε) : Option α → Action ε σ α
  | some a => pure a
  | none => fail e

@[simp] theorem run_pure (a : α) (s : σ) : (pure a : Action ε σ α).run s = (.ok a, s) := rfl

@[simp] theorem run_fail (e : ε) (s : σ) : (fail e : Action ε σ α).run s = (.error e, s) := rfl

theorem run_bind_of_ok {act : Action ε σ α} {next : α → Action ε σ β} {s s' : σ} {a : α}
    (h : act.run s = (.ok a, s')) : (act >>= next).run s = (next a).run s' := by
  show (match act s with | (.ok a, s') => next a s' | (.error e, s') => (.error e, s')) = _
  rw [show act s = (.ok a, s') from h]
  rfl

theorem run_bind_of_error {act : Action ε σ α} {next : α → Action ε σ β} {s s' : σ} {e : ε}
    (h : act.run s = (.error e, s')) : (act >>= next).run s = (.error e, s') := by
  show (match act s with | (.ok a, s') => next a s' | (.error e, s') => (.error e, s')) = _
  rw [show act s = (.error e, s') from h]

end Action

end PointerGuard
