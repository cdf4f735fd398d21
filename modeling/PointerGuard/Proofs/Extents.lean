import Mathlib
import PointerGuard.Lifetimes.Basic

namespace PointerGuard

theorem CellWidth.bytes_pos (width : CellWidth) : 0 < width.bytes := by
  cases width <;> decide

namespace Extent

variable {x y : Extent}

/-- The extent ends within the words. -/
def Fits (x : Extent) : Prop := 0 < x.width ∧ x.base.toNat + x.len * x.width ≤ 2 ^ 64

/-- The numbers of the bytes of the extent. -/
def bytes (x : Extent) : Set Nat := Set.Ico x.base.toNat (x.base.toNat + x.len * x.width)

/-- A cell of the extent starts at this address. -/
def HasCell (x : Extent) (a : Word) : Prop := ∃ i < x.len, x.addrOf i = a

instance (x : Extent) (a : Word) : Decidable (x.HasCell a) :=
  inferInstanceAs (Decidable (∃ i < x.len, x.addrOf i = a))

theorem toNat_addrOf (hx : x.Fits) {i : Nat} (hi : i < x.len) :
    (x.addrOf i).toNat = x.base.toNat + i * x.width := by
  have hstep : (i + 1) * x.width ≤ x.len * x.width := Nat.mul_le_mul_right _ hi
  have hroom := hx.2
  have hpos := hx.1
  rw [Nat.succ_mul] at hstep
  rw [addrOf, UInt64.toNat_add, toNat_ofNat_of_lt (by omega), Nat.mod_eq_of_lt (by omega)]

theorem indexOf_eq_some_iff (hx : x.Fits) {a : Word} {i : Nat} :
    x.indexOf a = some i ↔ i < x.len ∧ x.addrOf i = a := by
  constructor
  · intro h
    unfold indexOf at h
    split at h
    next hc =>
      obtain ⟨hle, hmod, hlt⟩ := hc
      cases Option.some.inj h
      refine ⟨hlt, UInt64.toNat_inj.mp ?_⟩
      have hdiv := Nat.div_add_mod (a.toNat - x.base.toNat) x.width
      rw [toNat_addrOf hx hlt, Nat.mul_comm]
      omega
    next => simp at h
  · rintro ⟨hi, rfl⟩
    have hoff : (x.addrOf i).toNat - x.base.toNat = i * x.width := by
      rw [toNat_addrOf hx hi]
      omega
    have hle : x.base.toNat ≤ (x.addrOf i).toNat := by
      rw [toNat_addrOf hx hi]
      omega
    rw [indexOf, hoff, Nat.mul_div_cancel _ hx.1, if_pos ⟨hle, Nat.mul_mod_left _ _, hi⟩]

theorem indexOf_addrOf (hx : x.Fits) {i : Nat} (hi : i < x.len) :
    x.indexOf (x.addrOf i) = some i :=
  (indexOf_eq_some_iff hx).mpr ⟨hi, rfl⟩

theorem indexOf_eq_none_of_lt {a : Word} (h : a.toNat < x.base.toNat) : x.indexOf a = none := by
  rw [indexOf, if_neg (by omega)]

/-- An address without a cell is below the base, within a cell, or at or past the end. -/
theorem indexOf_eq_none_iff (hx : x.Fits) {a : Word} :
    x.indexOf a = none ↔ a.toNat < x.base.toNat ∨ ¬x.width ∣ a.toNat - x.base.toNat ∨
      x.base.toNat + x.len * x.width ≤ a.toNat := by
  have hend : (a.toNat - x.base.toNat) / x.width < x.len ↔
      a.toNat - x.base.toNat < x.len * x.width := Nat.div_lt_iff_lt_mul hx.1
  rw [Nat.dvd_iff_mod_eq_zero]
  unfold indexOf
  split
  next hin =>
    rw [hend] at hin
    exact iff_of_false (by simp) (by omega)
  next hout =>
    rw [hend] at hout
    exact iff_of_true rfl (by omega)

theorem addrOf_injective (hx : x.Fits) {i j : Nat} (hi : i < x.len) (hj : j < x.len)
    (h : x.addrOf i = x.addrOf j) : i = j := by
  have hindex := indexOf_addrOf hx hi
  rw [h, indexOf_addrOf hx hj] at hindex
  exact (Option.some.inj hindex).symm

theorem hasCell_iff (hx : x.Fits) {a : Word} : x.HasCell a ↔ ∃ i, x.indexOf a = some i := by
  simp only [HasCell, indexOf_eq_some_iff hx]

theorem HasCell.mem_bytes (hx : x.Fits) {a : Word} (h : x.HasCell a) : a.toNat ∈ x.bytes := by
  obtain ⟨i, hi, rfl⟩ := h
  have hstep : (i + 1) * x.width ≤ x.len * x.width := Nat.mul_le_mul_right _ hi
  have hpos := hx.1
  rw [Nat.succ_mul] at hstep
  rw [bytes, Set.mem_Ico, toNat_addrOf hx hi]
  omega

theorem disjoint_of_le (h : x.base.toNat + x.len * x.width ≤ y.base.toNat) :
    Disjoint x.bytes y.bytes := by
  rw [bytes, bytes, Set.Ico_disjoint_Ico]
  exact (min_le_left _ _).trans (h.trans (le_max_right _ _))

/-- Extents without a byte in common have no cell in common. -/
theorem not_hasCell_of_disjoint (hx : x.Fits) (hy : y.Fits) (hd : Disjoint x.bytes y.bytes)
    {a : Word} (h : x.HasCell a) : ¬y.HasCell a :=
  fun h' => Set.disjoint_left.mp hd (h.mem_bytes hx) (h'.mem_bytes hy)

end Extent

end PointerGuard
