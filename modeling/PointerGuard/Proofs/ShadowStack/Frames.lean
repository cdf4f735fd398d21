import Mathlib
import PointerGuard.Proofs.Creation

namespace PointerGuard.ShadowStack

variable {mode : Mode} {t u : Table Word} {f g : List Metadata} {fs : List (List Metadata)}

/-- The words that frames take, two header words each. -/
def frameWords (mode : Mode) : List (List Metadata) → Nat
  | [] => 0
  | f :: fs => frameWords mode fs + 2 + f.length * mode.fields

/-- The entries of `n` slots from a word on. -/
def slotEntries (mode : Mode) (t : Table Word) (start n : Nat) : List Metadata :=
  (List.range n).map fun i => mode.decode (t.slice (start + i * mode.fields) mode.fields)

/-- The frames from the header at `ptr` down, `depth` of them above the root. -/
def framesFrom (mode : Mode) (t : Table Word) (ptr : Nat) : Nat → List (List Metadata)
  | 0 => [slotEntries mode t (ptr + 2) ((t.get (ptr + 1)).toNat / mode.fields)]
  | depth + 1 =>
    slotEntries mode t (ptr + 2) ((t.get (ptr + 1)).toNat / mode.fields) ::
      framesFrom mode t (ptr - ((t.get ptr).toNat + 2)) depth

/-- The frames of a stack, newest first, each with the entries of its slots. -/
def frames (s : ShadowStack mode) : List (List Metadata) := framesFrom mode s.words s.ptr s.depth

@[simp] theorem length_slotEntries (start n : Nat) :
    (slotEntries mode t start n).length = n := by
  simp [slotEntries]

theorem getElem?_slotEntries {start n i : Nat} (hi : i < n) : (slotEntries mode t start n)[i]?
    = some (mode.decode (t.slice (start + i * mode.fields) mode.fields)) := by
  simp [slotEntries, hi]

theorem slotEntries_congr {start n : Nat}
    (h : ∀ k, start ≤ k → k < start + n * mode.fields → u.get k = t.get k) :
    slotEntries mode u start n = slotEntries mode t start n := by
  refine List.map_congr_left fun i hi => congrArg mode.decode (Table.slice_congr fun k hk hlt => ?_)
  have hend : (i + 1) * mode.fields ≤ n * mode.fields :=
    Nat.mul_le_mul_right _ (List.mem_range.mp hi)
  rw [Nat.succ_mul] at hend
  exact h k (by omega) (by omega)

/-- A write to one slot changes the entry of this slot. -/
theorem slotEntries_setSlice {start n i : Nat} (hi : i < n) (e : Metadata) :
    slotEntries mode (t.setSlice (start + i * mode.fields) (mode.encode e)) start n
      = (slotEntries mode t start n).set i (mode.keep e) := by
  refine List.ext_getElem? fun j => ?_
  by_cases hj : j < n
  · rw [getElem?_slotEntries hj, List.getElem?_set]
    by_cases hij : i = j
    · subst hij
      have hwritten := Table.slice_setSlice t (start + i * mode.fields) (mode.encode e)
      rw [Mode.length_encode] at hwritten
      rw [if_pos rfl, hwritten, length_slotEntries, if_pos hi]
      rfl
    · rw [if_neg hij, getElem?_slotEntries hj]
      have hapart : (j + 1) * mode.fields ≤ i * mode.fields ∨
          (i + 1) * mode.fields ≤ j * mode.fields := by
        rcases Nat.lt_or_gt_of_ne hij with hlt | hlt
        · exact Or.inr (Nat.mul_le_mul_right _ hlt)
        · exact Or.inl (Nat.mul_le_mul_right _ hlt)
      rw [Nat.succ_mul, Nat.succ_mul] at hapart
      refine congrArg (some ∘ mode.decode) (Table.slice_congr fun k hk hlt => ?_)
      rw [Table.get_setSlice, Mode.length_encode, if_neg (by omega)]
  · rw [List.getElem?_eq_none (by simp; omega), List.getElem?_eq_none (by simp; omega)]

/-- The words hold these frames, newest first, the root last. -/
inductive Laid (mode : Mode) (t : Table Word) : List (List Metadata) → Prop
  | root : t.get 1 = 0 → Laid mode t [[]]
  | frame {f : List Metadata} {fs : List (List Metadata)} {n : Nat} : Laid mode t (f :: fs) →
      (t.get (frameWords mode (f :: fs))).toNat = f.length * mode.fields →
      (t.get (frameWords mode (f :: fs) + 1)).toNat = n * mode.fields →
      Laid mode t (slotEntries mode t (frameWords mode (f :: fs) + 2) n :: f :: fs)

namespace Laid

theorem size (h : Laid mode t (f :: fs)) :
    (t.get (frameWords mode fs + 1)).toNat = f.length * mode.fields := by
  cases h with
  | root hz =>
    show (t.get 1).toNat = 0 * mode.fields
    rw [hz, Nat.zero_mul]
    rfl
  | frame _ _ hsize => rwa [length_slotEntries]

theorem entries (h : Laid mode t (f :: fs)) :
    slotEntries mode t (frameWords mode fs + 2) f.length = f := by
  cases h with
  | root => rfl
  | frame => rw [length_slotEntries]

theorem caller (h : Laid mode t (g :: f :: fs)) : Laid mode t (f :: fs) ∧
    (t.get (frameWords mode (f :: fs))).toNat = f.length * mode.fields := by
  cases h with
  | frame hl hprev _ => exact ⟨hl, hprev⟩

/-- The frames from one of them down are laid in the same words. -/
theorem lower {newer : List (List Metadata)} (h : Laid mode t (newer ++ f :: fs)) :
    Laid mode t (f :: fs) := by
  induction newer with
  | nil => exact h
  | cons g newer ih =>
    cases newer with
    | nil => exact h.caller.1
    | cons g' newer => exact ih h.caller.1

/-- Words above the frames do not matter. -/
theorem congr (h : Laid mode t fs) (hu : ∀ k < frameWords mode fs, u.get k = t.get k) :
    Laid mode u fs := by
  induction h with
  | root hz => exact .root ((hu 1 (by simp [frameWords])).trans hz)
  | @frame f fs n _ hprev hsize ih =>
    have hwords : frameWords mode (slotEntries mode t (frameWords mode (f :: fs) + 2) n :: f :: fs)
        = frameWords mode (f :: fs) + 2 + n * mode.fields := by
      rw [frameWords, length_slotEntries]
    rw [hwords] at hu
    have hslots : slotEntries mode t (frameWords mode (f :: fs) + 2) n
        = slotEntries mode u (frameWords mode (f :: fs) + 2) n :=
      slotEntries_congr fun k _ hlt => (hu k hlt).symm
    rw [hslots]
    refine .frame (ih fun k hk => hu k (by omega)) ?_ ?_
    · rw [hu _ (by omega), hprev]
    · rw [hu _ (by omega), hsize]

theorem set_slot (h : Laid mode t (f :: fs)) {i : Nat} (hi : i < f.length) (e : Metadata) :
    Laid mode (t.setSlice (frameWords mode fs + 2 + i * mode.fields) (mode.encode e))
      (f.set i (mode.keep e) :: fs) := by
  cases h with
  | root => simp at hi
  | @frame g gs n hl hprev hsize =>
    rw [length_slotEntries] at hi
    rw [← slotEntries_setSlice hi]
    have hkeep : ∀ k < frameWords mode (g :: gs) + 2,
        (t.setSlice (frameWords mode (g :: gs) + 2 + i * mode.fields) (mode.encode e)).get k
          = t.get k := fun k hk => by
      rw [Table.get_setSlice, if_neg (by omega)]
    refine .frame (hl.congr fun k hk => hkeep k (by omega)) ?_ ?_
    · rw [hkeep _ (by omega), hprev]
    · rw [hkeep _ (by omega), hsize]

theorem framesFrom_eq (h : Laid mode t fs) :
    framesFrom mode t (frameWords mode fs.tail) (fs.length - 1) = fs := by
  have htop {f : List Metadata} {fs : List (List Metadata)} (hl : Laid mode t (f :: fs)) :
      slotEntries mode t (frameWords mode fs + 2)
        ((t.get (frameWords mode fs + 1)).toNat / mode.fields) = f := by
    rw [hl.size, Nat.mul_div_cancel _ mode.fields_pos, hl.entries]
  induction h with
  | root hz => exact congrArg ([·]) (htop (.root hz))
  | @frame f fs n hl hprev hsize ih =>
    have hback : frameWords mode (f :: fs) - (f.length * mode.fields + 2) = frameWords mode fs := by
      rw [frameWords]
      omega
    show framesFrom mode t (frameWords mode (f :: fs)) (fs.length + 1) = _
    rw [framesFrom, htop (.frame hl hprev hsize), hprev, hback]
    exact congrArg _ ih

end Laid

end PointerGuard.ShadowStack
