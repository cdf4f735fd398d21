import Mathlib.Tactic.Common
import PointerGuard.Bounds

namespace PointerGuard

variable {lenient : Leniency} {ptr width base bound : Word} {new old missing known : Word × Word}

/-- Bounds with this base pass as missing. -/
def Leniency.Ignores (lenient : Leniency) (base : Word) : Prop :=
  lenient.ignoreMissing = true ∧ base = 0

/-- An access of so many bytes passes whatever the bounds are. -/
def Leniency.Exempts (lenient : Leniency) (width : Word) : Prop :=
  lenient.allowZeroWidth = true ∧ width = 0

/-- The access passes with `missing` only because that has no base, and `known` has one. -/
def HidesMissing (lenient : Leniency) (ptr width : Word) (missing known : Word × Word) : Prop :=
  lenient.Ignores missing.1 ∧ known.1 ≠ 0 ∧ missing.2.toNat < ptr.toNat + width.toNat ∧
    ¬lenient.Exempts width

theorem spatialCheck_passes_iff : spatialCheck lenient ptr width base bound = .ok () ↔
    InBounds ptr width base bound ∨ lenient.Ignores base ∨ lenient.Exempts width := by
  unfold spatialCheck Leniency.Ignores Leniency.Exempts
  split
  next h => exact iff_of_true rfl h
  next h => exact iff_of_false (by simp) h

theorem inBounds_of_no_base (h : base = 0) :
    InBounds ptr width base bound ↔ ptr.toNat + width.toNat ≤ bound.toNat := by
  subst h
  exact and_iff_right (Nat.zero_le _)

theorem inBounds_shrinkBounds_iff :
    InBounds ptr width (shrinkBounds new old).1 (shrinkBounds new old).2 ↔
      InBounds ptr width new.1 new.2 ∧ InBounds ptr width old.1 old.2 := by
  simp only [InBounds, shrinkBounds, UInt64.toNat_max, UInt64.toNat_min]
  omega

/-- Common bounds have no base if neither pair has one. -/
theorem ignores_shrinkBounds_iff : lenient.Ignores (shrinkBounds new old).1 ↔
    lenient.Ignores new.1 ∧ lenient.Ignores old.1 := by
  have hbase : (shrinkBounds new old).1 = 0 ↔ new.1 = 0 ∧ old.1 = 0 := by
    simp only [shrinkBounds, ← UInt64.toNat_inj, UInt64.toNat_max, UInt64.toNat_zero]
    omega
  rw [Leniency.Ignores, hbase]
  exact and_and_left

/-- Where the lack of a base is not what counts, the access lies within the bounds. -/
theorem inBounds_of_not_hides (hm : lenient.Ignores missing.1) (hk : ¬lenient.Ignores known.1)
    (he : ¬lenient.Exempts width) (h : ¬HidesMissing lenient ptr width missing known) :
    InBounds ptr width missing.1 missing.2 := by
  rw [inBounds_of_no_base hm.2]
  by_contra hlong
  have hbase : known.1 ≠ 0 := fun hz => hk ⟨hm.1, hz⟩
  exact h ⟨hm, hbase, Nat.lt_of_not_le hlong, he⟩

/-- Nothing is hidden from an access that lies within both pairs of bounds, or that passes without.
-/
theorem not_hides_of_passes (hm : InBounds ptr width missing.1 missing.2 ∨ lenient.Ignores known.1 ∨
    lenient.Exempts width) : ¬HidesMissing lenient ptr width missing known := by
  rintro ⟨hno, hbase, hlong, hnot⟩
  rcases hm with hin | hk | he
  · have hend := (inBounds_of_no_base hno.2).mp hin
    omega
  · exact hbase hk.2
  · exact hnot he

/-- A check with narrowed bounds passes exactly the accesses that the checks with both pairs of
bounds pass, except those that one of them passes for want of a base that the other has. -/
theorem narrowed_check_passes_iff (lenient : Leniency) (new old : Word × Word) (ptr width : Word) :
    let narrowed := shrinkBounds new old
    spatialCheck lenient ptr width narrowed.1 narrowed.2 = .ok () ↔
      (spatialCheck lenient ptr width new.1 new.2 = .ok () ∧
        spatialCheck lenient ptr width old.1 old.2 = .ok ()) ∧
      ¬HidesMissing lenient ptr width new old ∧ ¬HidesMissing lenient ptr width old new := by
  intro narrowed
  rw [spatialCheck_passes_iff, spatialCheck_passes_iff, spatialCheck_passes_iff,
    inBounds_shrinkBounds_iff, ignores_shrinkBounds_iff]
  constructor
  · rintro (⟨hnew, hold⟩ | ⟨hnew, hold⟩ | he)
    · exact ⟨⟨.inl hnew, .inl hold⟩, not_hides_of_passes (.inl hnew), not_hides_of_passes (.inl hold)⟩
    · exact ⟨⟨.inr (.inl hnew), .inr (.inl hold)⟩, not_hides_of_passes (.inr (.inl hold)),
        not_hides_of_passes (.inr (.inl hnew))⟩
    · exact ⟨⟨.inr (.inr he), .inr (.inr he)⟩, not_hides_of_passes (.inr (.inr he)),
        not_hides_of_passes (.inr (.inr he))⟩
  · rintro ⟨⟨hnew, hold⟩, hshown, hshown'⟩
    by_cases he : lenient.Exempts width
    · exact .inr (.inr he)
    by_cases hn : lenient.Ignores new.1 <;> by_cases ho : lenient.Ignores old.1
    · exact .inr (.inl ⟨hn, ho⟩)
    · have hin := inBounds_of_not_hides hn ho he hshown
      exact .inl ⟨hin, by simpa [ho, he] using hold⟩
    · have hin := inBounds_of_not_hides ho hn he hshown'
      exact .inl ⟨by simpa [hn, he] using hnew, hin⟩
    · exact .inl ⟨by simpa [hn, he] using hnew, by simpa [ho, he] using hold⟩

/-- Where missing metadata is ignored, a pointer that nothing is known of passes any check, until
its bounds are narrowed to those of an object: then it fails within the object, too. -/
theorem narrowed_unknown_bounds_fail :
    let lenient : Leniency := { ignoreMissing := true }
    let narrowed := shrinkBounds (0x1000, 0x1010) (0, 0)
    spatialCheck lenient 0x1004 4 0x1000 0x1010 = .ok () ∧
    spatialCheck lenient 0x1004 4 0 0 = .ok () ∧
    spatialCheck lenient 0x1004 4 narrowed.1 narrowed.2 = .error (.outOfBounds 0x1004 0x1000 0 4) := by
  decide

/-- Bounds alone do not tell whether missing metadata is ignored, so no narrowing of bounds passes
what both pairs pass under either policy. -/
theorem no_narrowing_fits_both_policies :
    ¬∃ narrow : Word × Word → Word × Word → Word × Word, ∀ lenient new old ptr width,
      spatialCheck lenient ptr width (narrow new old).1 (narrow new old).2 = .ok () ↔
        spatialCheck lenient ptr width new.1 new.2 = .ok () ∧
          spatialCheck lenient ptr width old.1 old.2 = .ok () := by
  rintro ⟨narrow, h⟩
  generalize hn : narrow (0x1000, 0x1010) (0, 0) = narrowed
  have hstrict := h {} (0x1000, 0x1010) (0, 0) 0x1000 1
  have hinside := h { ignoreMissing := true } (0x1000, 0x1010) (0, 0) 0x1000 1
  have hbelow := h { ignoreMissing := true } (0x1000, 0x1010) (0, 0) 0 1
  rw [hn, spatialCheck_passes_iff] at hstrict hinside hbelow
  rcases hinside.mpr (by decide) with hin | hno | he
  · exact absurd (hstrict.mp (.inl hin)) (by decide)
  · exact absurd (hbelow.mp (.inr (.inl hno))) (by decide)
  · exact absurd he.1 (by decide)

end PointerGuard
