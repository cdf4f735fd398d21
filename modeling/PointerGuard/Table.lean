import Std.Data.TreeMap
import PointerGuard.Host.Memory

namespace PointerGuard

inductive Refusal where
  | empty
  /-- The size in bytes is no word. -/
  | overflow
  /-- The host does not grant that much memory. -/
  | denied
deriving DecidableEq, Repr

def Refusal.message : Refusal → String
  | empty => "refusing to map an empty table"
  | overflow => "table size overflows usize"
  | denied => "os error"

/-- The address of `len` cells of `width` bytes in a mapping of their own, or why there is none. -/
def Host.reservation (host : Host) (region : Region) (len width : Nat) : Except Refusal Word :=
  if len = 0 then .error .empty
  else if 1 <<< 64 ≤ len * width then .error .overflow
  else
    match host.map region (len * width) with
    | some base => .ok base
    | none => .error .denied

/-- A table of `len` cells, all zero at first. A cell that holds zero is not in `cells`. -/
structure Table (α : Type) where
  len : Nat
  cells : Std.TreeMap Nat α := ∅

namespace Table

variable {α : Type}

def reserve (host : Host) (region : Region) (len width : Nat) : Except Refusal (Word × Table α) :=
  (host.reservation region len width).map fun base => (base, { len })

variable [OfNat α 0]

def get (t : Table α) (i : Nat) : α := t.cells.getD i 0

def slice (t : Table α) (i n : Nat) : List α :=
  (List.range n).map fun k => t.get (i + k)

@[simp] theorem get_empty (len i : Nat) : ({ len } : Table α).get i = 0 := by
  simp [get]

@[simp] theorem length_slice (t : Table α) (i n : Nat) : (t.slice i n).length = n := by
  simp [slice]

theorem slice_congr {t u : Table α} {i n : Nat}
    (h : ∀ k, i ≤ k → k < i + n → t.get k = u.get k) : t.slice i n = u.slice i n := by
  apply List.ext_getElem (by simp)
  intro k hk _
  rw [length_slice] at hk
  simpa [slice] using h (i + k) (by omega) (by omega)

variable [DecidableEq α]

def set (t : Table α) (i : Nat) (v : α) : Table α :=
  { t with cells := if v = 0 then t.cells.erase i else t.cells.insert i v }

def setSlice (t : Table α) (i : Nat) : List α → Table α
  | [] => t
  | v :: vs => (t.set i v).setSlice (i + 1) vs

/-- Writes zero to the `n` cells from `i` on. -/
def clear (t : Table α) (i : Nat) : Nat → Table α
  | 0 => t
  | n + 1 => (t.set i 0).clear (i + 1) n

/-- Writes the `n` cells of `source` from `j` on to the cells from `i` on. `source` is read as it
was before the first write, so the two ranges may overlap in one table. -/
def copyFrom (t source : Table α) (i j : Nat) : Nat → Table α
  | 0 => t
  | n + 1 => (t.set i (source.get j)).copyFrom source (i + 1) (j + 1) n

@[simp] theorem len_set (t : Table α) (i : Nat) (v : α) : (t.set i v).len = t.len := rfl

theorem get_set (t : Table α) (i j : Nat) (v : α) :
    (t.set i v).get j = if j = i then v else t.get j := by
  unfold get set
  by_cases hv : v = 0
  · simp only [hv, ↓reduceIte, Std.TreeMap.getD_erase, Nat.compare_eq_eq]
    by_cases hj : j = i
    · simp [hj]
    · simp [hj, Ne.symm hj]
  · simp only [hv, ↓reduceIte, Std.TreeMap.getD_insert, Nat.compare_eq_eq]
    by_cases hj : j = i
    · simp [hj]
    · simp [hj, Ne.symm hj]

@[simp] theorem get_set_self (t : Table α) (i : Nat) (v : α) : (t.set i v).get i = v := by
  simp [get_set]

theorem get_set_of_ne {i j : Nat} (h : j ≠ i) (t : Table α) (v : α) :
    (t.set i v).get j = t.get j := by
  simp [get_set, h]

@[simp] theorem len_setSlice (t : Table α) (i : Nat) (vs : List α) :
    (t.setSlice i vs).len = t.len := by
  induction vs generalizing t i with
  | nil => rfl
  | cons v vs ih => simp [setSlice, ih]

@[simp] theorem len_clear (t : Table α) (i n : Nat) : (t.clear i n).len = t.len := by
  induction n generalizing t i with
  | zero => rfl
  | succ n ih => simp [clear, ih]

@[simp] theorem len_copyFrom (t source : Table α) (i j n : Nat) :
    (t.copyFrom source i j n).len = t.len := by
  induction n generalizing t i j with
  | zero => rfl
  | succ n ih => simp [copyFrom, ih]

theorem get_clear (t : Table α) (i n k : Nat) :
    (t.clear i n).get k = if i ≤ k ∧ k < i + n then 0 else t.get k := by
  induction n generalizing t i with
  | zero => rw [if_neg (by omega)]; rfl
  | succ n ih =>
    rw [clear, ih, get_set]
    by_cases hk : k = i
    · rw [if_neg (by omega), if_pos hk, if_pos (by omega)]
    · by_cases hr : i + 1 ≤ k ∧ k < i + 1 + n
      · rw [if_pos hr, if_pos (by omega)]
      · rw [if_neg hr, if_neg hk, if_neg (by omega)]

theorem get_copyFrom (t source : Table α) (i j n k : Nat) :
    (t.copyFrom source i j n).get k =
      if i ≤ k ∧ k < i + n then source.get (j + (k - i)) else t.get k := by
  induction n generalizing t i j with
  | zero => rw [if_neg (by omega)]; rfl
  | succ n ih =>
    rw [copyFrom, ih, get_set]
    by_cases hk : k = i
    · rw [if_neg (by omega), if_pos hk, if_pos (by omega), show j + (k - i) = j by omega]
    · by_cases hr : i + 1 ≤ k ∧ k < i + 1 + n
      · rw [if_pos hr, if_pos (by omega), show j + 1 + (k - (i + 1)) = j + (k - i) by omega]
      · rw [if_neg hr, if_neg hk, if_neg (by omega)]

theorem get_setSlice (t : Table α) (i : Nat) (vs : List α) (k : Nat) :
    (t.setSlice i vs).get k =
      if i ≤ k ∧ k < i + vs.length then vs.getD (k - i) 0 else t.get k := by
  induction vs generalizing t i with
  | nil =>
    rw [if_neg (by simp only [List.length_nil]; omega)]
    rfl
  | cons v vs ih =>
    rw [setSlice, ih, get_set, List.length_cons]
    by_cases hk : k = i
    · subst hk
      rw [if_neg (by omega), if_pos rfl, if_pos (by omega)]
      simp
    · by_cases hr : i + 1 ≤ k ∧ k < i + 1 + vs.length
      · rw [if_pos hr, if_pos (by omega), show k - i = k - (i + 1) + 1 by omega,
          List.getD_cons_succ]
      · rw [if_neg hr, if_neg hk, if_neg (by omega)]

theorem slice_setSlice (t : Table α) (i : Nat) (vs : List α) :
    (t.setSlice i vs).slice i vs.length = vs := by
  apply List.ext_getElem (by simp)
  intro k _ hk
  simp only [slice, List.getElem_map, List.getElem_range, get_setSlice]
  rw [if_pos (by omega), Nat.add_sub_cancel_left, List.getD_eq_getElem?_getD,
    List.getElem?_eq_getElem hk, Option.getD_some]

end Table

/-- The widths a cell of a table of words may have. -/
inductive CellWidth where
  | one
  | four
  | eight
deriving DecidableEq, Repr

namespace CellWidth

def bytes : CellWidth → Nat
  | one => 1
  | four => 4
  | eight => 8

/-- The part of a word that a cell of this width keeps. -/
def cut (width : CellWidth) (w : Word) : Word := .ofNat (w.toNat % (1 <<< (8 * width.bytes)))

end CellWidth

/-- The addresses of `len` consecutive cells of `width` bytes from `base` on. -/
structure Extent where
  base : Word
  width : Nat
  len : Nat

namespace Extent

def addrOf (x : Extent) (i : Nat) : Word := x.base + .ofNat (i * x.width)

/-- The cell that starts at an address. -/
def indexOf (x : Extent) (addr : Word) : Option Nat :=
  if x.base.toNat ≤ addr.toNat ∧ (addr.toNat - x.base.toNat) % x.width = 0 ∧
      (addr.toNat - x.base.toNat) / x.width < x.len then
    some ((addr.toNat - x.base.toNat) / x.width)
  else none

end Extent

end PointerGuard
