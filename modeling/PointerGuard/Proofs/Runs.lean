namespace PointerGuard.Runs

variable {σ ο : Type} (step : σ → ο → σ)

/-- Every operation of the run satisfies `C`. -/
def Always (C : σ → ο → Prop) : σ → List ο → Prop
  | _, [] => True
  | s, o :: os => C s o ∧ Always C (step s o) os

/-- Some operation of the run satisfies `C`. -/
def Ever (C : σ → ο → Prop) : σ → List ο → Prop
  | _, [] => False
  | s, o :: os => C s o ∨ Ever C (step s o) os

/-- The number of operations of the run that satisfy `C`. -/
def tally (C : σ → ο → Bool) : σ → List ο → Nat
  | _, [] => 0
  | s, o :: os => (if C s o then 1 else 0) + tally C (step s o) os

instance decidableAlways {C : σ → ο → Prop} [∀ s o, Decidable (C s o)] :
    (s : σ) → (os : List ο) → Decidable (Always step C s os)
  | _, [] => .isTrue trivial
  | s, o :: os =>
    have : Decidable (Always step C (step s o) os) := decidableAlways (step s o) os
    inferInstanceAs (Decidable (C s o ∧ Always step C (step s o) os))

variable {step}

theorem foldl_of_always {C : σ → ο → Prop} {I : σ → Prop}
    (keep : ∀ s o, I s → C s o → I (step s o)) {s : σ} {os : List ο} (hi : I s)
    (hr : Always step C s os) : I (os.foldl step s) := by
  induction os generalizing s with
  | nil => exact hi
  | cons o os ih => exact ih (keep s o hi hr.1) hr.2

theorem foldl_invariant {I : σ → Prop} (keep : ∀ s o, I s → I (step s o)) {s : σ} (os : List ο)
    (hi : I s) : I (os.foldl step s) := by
  induction os generalizing s with
  | nil => exact hi
  | cons o os ih => exact ih (keep s o hi)

theorem always_mono {C D : σ → ο → Prop} (h : ∀ s o, C s o → D s o) {s : σ} {os : List ο}
    (hr : Always step C s os) : Always step D s os := by
  induction os generalizing s with
  | nil => trivial
  | cons o os ih => exact ⟨h s o hr.1, ih hr.2⟩

theorem always_of_mem {C : σ → ο → Prop} {s : σ} {os : List ο} (h : ∀ o ∈ os, ∀ s, C s o) :
    Always step C s os := by
  induction os generalizing s with
  | nil => trivial
  | cons o os ih =>
    exact ⟨h o (List.mem_cons_self ..) s, ih fun o ho => h o (List.mem_cons_of_mem _ ho)⟩

theorem always_append {C : σ → ο → Prop} {s : σ} {xs ys : List ο} :
    Always step C s (xs ++ ys) ↔ Always step C s xs ∧ Always step C (xs.foldl step s) ys := by
  induction xs generalizing s with
  | nil => simp [Always]
  | cons x xs ih => simp [Always, ih, and_assoc]

theorem ever_append {C : σ → ο → Prop} {s : σ} {xs ys : List ο} :
    Ever step C s (xs ++ ys) ↔ Ever step C s xs ∨ Ever step C (xs.foldl step s) ys := by
  induction xs generalizing s with
  | nil => simp [Ever]
  | cons x xs ih => simp [Ever, ih, or_assoc]

theorem tally_append {C : σ → ο → Bool} {s : σ} {xs ys : List ο} :
    tally step C s (xs ++ ys) = tally step C s xs + tally step C (xs.foldl step s) ys := by
  induction xs generalizing s with
  | nil => simp [tally]
  | cons x xs ih => simp [tally, ih, Nat.add_assoc]

theorem tally_le_length {C : σ → ο → Bool} {s : σ} {os : List ο} :
    tally step C s os ≤ os.length := by
  induction os generalizing s with
  | nil => exact Nat.le_refl 0
  | cons o os ih =>
    have hrest := ih (s := step s o)
    rw [tally, List.length_cons]
    split <;> omega

end PointerGuard.Runs
