import PointerGuard.Action
import PointerGuard.Proofs.Extents

namespace PointerGuard

inductive Trap where
  /-- An access beyond a table, a list or a slice. -/
  | outOfRange
  /-- A result too large for its field. -/
  | overflow
  | underflow
  | zeroDivisor
deriving DecidableEq, Repr

/-- Why a checked step has no value. -/
inductive Stop where
  | violation (v : Violation)
  | trap (t : Trap)
deriving DecidableEq, Repr

/-- The value of a checked step, or why it has none. -/
abbrev Checked : Type → Type := Except Stop

/-- Replaces a violation by another one. -/
def Stop.map (f : Violation → Violation) : Stop → Stop
  | violation v => violation (f v)
  | trap t => trap t

variable {α β σ τ : Type}

namespace Checked

/-- The outcome of a step that makes no unchecked access. -/
def of (x : Except Violation α) : Checked α := x.mapError .violation

def violation (v : Violation) : Checked α := .error (.violation v)

/-- The value if `p` holds, and the trap otherwise. -/
def demand (p : Prop) [Decidable p] (t : Trap) (a : α) : Checked α :=
  if p then .ok a else .error (.trap t)

/-- Turns a violation into a value, so that the program can go on. -/
def caught : Checked α → Checked (Except Violation α)
  | .ok a => .ok (.ok a)
  | .error (.violation v) => .ok (.error v)
  | .error (.trap t) => .error (.trap t)

@[simp] theorem of_ok (a : α) : of (.ok a : Except Violation α) = .ok a := rfl

@[simp] theorem of_error (v : Violation) : of (.error v : Except Violation α) = violation v := rfl

theorem ok_bind (a : α) (next : α → Checked β) : (.ok a : Checked α) >>= next = next a := rfl

theorem violation_bind (v : Violation) (next : α → Checked β) :
    (violation v : Checked α) >>= next = violation v :=
  rfl

theorem demand_eq {p : Prop} [Decidable p] (h : p) (t : Trap) (a : α) : demand p t a = .ok a :=
  if_pos h

@[simp] theorem caught_of (x : Except Violation α) : caught (of x) = .ok x := by
  cases x <;> rfl

theorem mapError_of (f : Violation → Violation) (x : Except Violation α) :
    (of x).mapError (Stop.map f) = of (x.mapError f) := by
  cases x <;> rfl

end Checked

open Checked

def addOrTrap (a b : Nat) : Checked Nat := demand (a + b < 1 <<< 64) .overflow (a + b)

def subOrTrap (a b : Nat) : Checked Nat := demand (b ≤ a) .underflow (a - b)

def mulOrTrap (a b : Nat) : Checked Nat := demand (a * b < 1 <<< 64) .overflow (a * b)

def remOrTrap (a b : Nat) : Checked Nat := demand (b ≠ 0) .zeroDivisor (a % b)

/-- A number as one of 32 bits. -/
def narrowOrTrap (n : Nat) : Checked Nat := demand (n < 1 <<< 32) .overflow n

/-- A result that the program tests before it uses it. -/
def wordOr (v : Violation) (n : Nat) : Checked Nat := if n < 1 <<< 64 then .ok n else violation v

theorem addOrTrap_eq {a b : Nat} (h : a + b < 1 <<< 64) : addOrTrap a b = .ok (a + b) :=
  demand_eq h ..

theorem subOrTrap_eq {a b : Nat} (h : b ≤ a) : subOrTrap a b = .ok (a - b) :=
  demand_eq h ..

theorem mulOrTrap_eq {a b : Nat} (h : a * b < 1 <<< 64) : mulOrTrap a b = .ok (a * b) :=
  demand_eq h ..

theorem remOrTrap_eq {a b : Nat} (h : b ≠ 0) : remOrTrap a b = .ok (a % b) :=
  demand_eq h ..

theorem narrowOrTrap_eq {n : Nat} (h : n < 1 <<< 32) : narrowOrTrap n = .ok n :=
  demand_eq h ..

theorem wordOr_eq {n : Nat} (v : Violation) (h : n < 1 <<< 64) : wordOr v n = .ok n :=
  if_pos h

namespace Table

/-- The table, if the cells from `i` up to `j` are a slice of it. -/
def rangeOrTrap (t : Table α) (i j : Nat) : Checked (Table α) :=
  demand (i ≤ j ∧ j ≤ t.len) .outOfRange t

theorem rangeOrTrap_eq {t : Table α} {i j : Nat} (hi : i ≤ j) (hj : j ≤ t.len) :
    t.rangeOrTrap i j = .ok t :=
  demand_eq ⟨hi, hj⟩ ..

variable [OfNat α 0]

def getOrTrap (t : Table α) (i : Nat) : Checked α := demand (i < t.len) .outOfRange (t.get i)

theorem getOrTrap_eq {t : Table α} {i : Nat} (h : i < t.len) : t.getOrTrap i = .ok (t.get i) :=
  demand_eq h ..

variable [DecidableEq α]

def setOrTrap (t : Table α) (i : Nat) (v : α) : Checked (Table α) :=
  demand (i < t.len) .outOfRange (t.set i v)

theorem setOrTrap_eq {t : Table α} {i : Nat} (h : i < t.len) (v : α) :
    t.setOrTrap i v = .ok (t.set i v) :=
  demand_eq h ..

end Table

/-- Writes an element of a list. -/
def putOrTrap (xs : Array α) (i : Nat) (a : α) : Checked (Array α) :=
  demand (i < xs.size) .outOfRange (xs.setIfInBounds i a)

theorem putOrTrap_eq {xs : Array α} {i : Nat} (h : i < xs.size) (a : α) :
    putOrTrap xs i a = .ok (xs.setIfInBounds i a) :=
  demand_eq h ..

/-- The address of a cell, which has to be one of the extent. -/
def Extent.addrOfOrTrap (x : Extent) (i : Nat) : Checked Word := do
  let i ← demand (i < x.len) .outOfRange i
  let offset ← mulOrTrap i x.width
  let addr ← addOrTrap x.base.toNat offset
  .ok (.ofNat addr)

theorem Extent.addrOfOrTrap_eq {x : Extent} {i : Nat} (hx : x.Fits) (hi : i < x.len) :
    x.addrOfOrTrap i = .ok (x.addrOf i) := by
  have hstep : (i + 1) * x.width ≤ x.len * x.width := Nat.mul_le_mul_right _ hi
  have hroom := hx.2
  have hpos := hx.1
  rw [Nat.succ_mul] at hstep
  rw [addrOfOrTrap, demand_eq hi, ok_bind, mulOrTrap_eq (by omega), ok_bind,
    addOrTrap_eq (by omega), ok_bind, ← toNat_addrOf hx hi, UInt64.ofNat_toNat]

/-- The step as one of the machine; it makes no unchecked access itself. -/
def Action.untrapped (act : Action Violation σ α) : Action Stop σ α := fun s =>
  (of (act.run s).1, (act.run s).2)

/-- A change of the state that also answers, and happens only if it succeeds. -/
def Action.issue {ε : Type} (f : σ → Except ε (α × σ)) : Action ε σ α := fun s =>
  match f s with
  | .ok (a, s') => (.ok a, s')
  | .error e => (.error e, s)

/-- A step that may fail and still change the state. A trap leaves no state to go on from. -/
def Action.trapping (f : σ → Checked (Except Violation α × σ)) : Action Stop σ α := fun s =>
  match f s with
  | .ok (r, s') => (of r, s')
  | .error e => (.error e, s)

/-- The checked step ends as the plain one does, and `I` holds in the state that they reach. -/
structure Agrees (I : σ → Prop) (s : σ) (checked : Action Stop σ α) (plain : Action Violation σ α) :
    Prop where
  run : checked.run s = (of (plain.run s).1, (plain.run s).2)
  kept : I (plain.run s).2

namespace Agrees

variable {I : σ → Prop} {J : τ → Prop} {s : σ} {t : τ}

theorem untrapped (act : Action Violation σ α) (h : I (act.run s).2) :
    Agrees I s act.untrapped act :=
  ⟨rfl, h⟩

theorem trapping {f : σ → Checked (Except Violation α × σ)} {act : Action Violation σ α}
    (hf : f s = .ok (act.run s)) (h : I (act.run s).2) : Agrees I s (.trapping f) act := by
  refine ⟨?_, h⟩
  simp only [Action.run, Action.trapping] at hf ⊢
  rw [hf]

theorem pure (h : I s) (a : α) : Agrees I s (pure a) (pure a) :=
  ⟨rfl, h⟩

theorem ask {f : σ → Checked α} {f' : σ → Except Violation α} (h : I s) (hf : f s = of (f' s)) :
    Agrees I s (.ask f) (.ask f') :=
  ⟨congrArg (·, s) hf, h⟩

theorem read {f : σ → Checked α} {f' : σ → α} (h : I s) (hf : f s = .ok (f' s)) :
    Agrees I s (.ask f) (.read f') :=
  ⟨congrArg (·, s) hf, h⟩

theorem update {f : σ → Checked σ} {f' : σ → Except Violation σ} (h : I s) (hf : f s = of (f' s))
    (hk : ∀ s', f' s = .ok s' → I s') : Agrees I s (.update f) (.update f') := by
  cases hs : f' s with
  | ok s' =>
    rw [hs] at hf
    constructor
    · simp only [Action.run, Action.update, hf, hs, of_ok]
    · simp only [Action.run, Action.update, hs]
      exact hk s' hs
  | error v =>
    rw [hs] at hf
    constructor
    · simp only [Action.run, Action.update, hf, hs, of_error, violation]
    · simp only [Action.run, Action.update, hs]
      exact h

theorem issue {f : σ → Checked (α × σ)} {r : Except Violation (α × σ)}
    {act : Action Violation σ α} (h : I s) (hf : f s = of r)
    (hok : ∀ a s', r = .ok (a, s') → act.run s = (.ok a, s') ∧ I s')
    (herror : ∀ v, r = .error v → act.run s = (.error v, s)) : Agrees I s (.issue f) act := by
  cases r with
  | ok r =>
    obtain ⟨hact, hkept⟩ := hok r.1 r.2 rfl
    constructor
    · simp only [Action.run, Action.issue, hf, of_ok] at hact ⊢
      rw [hact, of_ok]
    · rw [hact]
      exact hkept
  | error v =>
    have hact := herror v rfl
    constructor
    · simp only [Action.run, Action.issue, hf, of_error, violation] at hact ⊢
      rw [hact, of_error, violation]
    · rw [hact]
      exact h

/-- What comes after a step may rely on how the step ended. -/
theorem bind {m : Action Stop σ α} {act : Action Violation σ α} {next : α → Action Stop σ β}
    {next' : α → Action Violation σ β} (h : Agrees I s m act)
    (hn : ∀ a s', act.run s = (.ok a, s') → I s' → Agrees I s' (next a) (next' a)) :
    Agrees I s (m >>= next) (act >>= next') := by
  obtain ⟨hrun, hkept⟩ := h
  cases hr : act.run s with
  | mk r s' =>
    rw [hr] at hrun hkept
    cases r with
    | error v =>
      have herror : (act >>= next').run s = (.error v, s') := Action.run_bind_of_error hr
      constructor
      · rw [herror, Action.run_bind_of_error hrun]
        rfl
      · rw [herror]
        exact hkept
    | ok a =>
      obtain ⟨hrun', hkept'⟩ := hn a s' hr hkept
      rw [← Action.run_bind_of_ok hr] at hrun' hkept'
      exact ⟨(Action.run_bind_of_ok hrun).trans hrun', hkept'⟩

theorem on {get : σ → τ} {put : σ → τ → σ} {m : Action Stop τ α} {act : Action Violation τ α}
    (h : Agrees J (get s) m act) (hp : ∀ t, J t → I (put s t)) :
    Agrees I s (m.on get put) (act.on get put) := by
  obtain ⟨hrun, hkept⟩ := h
  constructor
  · show ((m.run (get s)).1, put s (m.run (get s)).2) = _
    rw [hrun]
    rfl
  · exact hp _ hkept

end Agrees

end PointerGuard
