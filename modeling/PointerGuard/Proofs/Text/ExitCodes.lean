import Mathlib.Data.List.Basic
import Mathlib.Data.List.TakeWhile
import Mathlib.Data.Nat.Digits.Defs
import PointerGuard.Policy

namespace PointerGuard

variable {cs ds core before after : List Char} {m v : Nat} {n : Int}

def Blank (cs : List Char) : Prop := ∀ c ∈ cs, isBlank c = true

/-- `core` is what is left of `cs` without the white space at its ends. -/
structure Stripped (cs core : List Char) : Prop where
  around : ∃ before after, Blank before ∧ Blank after ∧ cs = before ++ core ++ after
  first : ∀ c ∈ core.head?, isBlank c = false
  last : ∀ c ∈ core.getLast?, isBlank c = false

theorem dropWhile_of_first (h : ∀ c ∈ cs.head?, isBlank c = false) : cs.dropWhile isBlank = cs := by
  cases cs with
  | nil => rfl
  | cons c cs => rw [List.dropWhile_cons, h c rfl, if_neg Bool.false_ne_true]

theorem head?_dropWhile (cs : List Char) :
    ∀ c ∈ (cs.dropWhile isBlank).head?, isBlank c = false := by
  intro c hc
  have hfirst := List.head?_dropWhile_not isBlank cs
  rwa [hc] at hfirst

theorem stripped_trimBlank (cs : List Char) : Stripped cs (trimBlank cs) := by
  let back := (cs.dropWhile isBlank).reverse
  have hmiddle : trimBlank cs ++ (back.takeWhile isBlank).reverse = cs.dropWhile isBlank := by
    rw [trimBlank, ← List.reverse_append, List.takeWhile_append_dropWhile, List.reverse_reverse]
  refine ⟨⟨cs.takeWhile isBlank, (back.takeWhile isBlank).reverse, ?_, ?_, ?_⟩, ?_, ?_⟩
  · exact fun c hc => List.mem_takeWhile_imp hc
  · exact fun c hc => List.mem_takeWhile_imp (List.mem_reverse.mp hc)
  · rw [List.append_assoc, hmiddle, List.takeWhile_append_dropWhile]
  · intro c hc
    have hfirst := head?_dropWhile cs
    rw [← hmiddle] at hfirst
    exact hfirst c (by rw [List.head?_append, hc]; rfl)
  · intro c hc
    rw [trimBlank, List.getLast?_reverse] at hc
    exact head?_dropWhile _ c hc

/-- A text has only one core. -/
theorem Stripped.trimBlank_eq (h : Stripped cs core) : trimBlank cs = core := by
  obtain ⟨⟨before, after, hbefore, hafter, rfl⟩, hfirst, hlast⟩ := h
  rw [trimBlank, List.append_assoc, List.dropWhile_append_of_pos hbefore]
  by_cases hempty : core = []
  · have hall : after.dropWhile isBlank = [] := List.dropWhile_eq_nil_iff.mpr hafter
    rw [hempty, List.nil_append, hall]
    rfl
  · have hhead : ∀ c ∈ (core ++ after).head?, isBlank c = false := by
      rwa [List.head?_append_of_ne_nil core hempty]
    have hend : ∀ c ∈ core.reverse.head?, isBlank c = false := by
      rwa [List.head?_reverse]
    rw [dropWhile_of_first hhead, List.reverse_append,
      List.dropWhile_append_of_pos fun c hc => hafter c (List.mem_reverse.mp hc),
      dropWhile_of_first hend, List.reverse_reverse]

/-- The number that digits stand for by their places. -/
def decimalValue (ds : List Char) : Nat :=
  Nat.ofDigits 10 (ds.reverse.map fun c => c.toNat - '0'.toNat)

structure IsDecimal (ds : List Char) : Prop where
  ne_nil : ds ≠ []
  digit : ∀ c ∈ ds, c.isDigit = true

/-- Decimal texts and the numbers they stand for. There may be one sign, and any number of leading
zeros. -/
inductive SignedDecimal : List Char → Int → Prop
  | unsigned {ds : List Char} (h : IsDecimal ds) : SignedDecimal ds (decimalValue ds)
  | plus {ds : List Char} (h : IsDecimal ds) : SignedDecimal ('+' :: ds) (decimalValue ds)
  | minus {ds : List Char} (h : IsDecimal ds) : SignedDecimal ('-' :: ds) (-decimalValue ds)

/-- Reading digits from the left, ten times what was read and the next, comes to their places. -/
theorem decimalValue_eq (ds : List Char) : decimalValue ds = Nat.ofDigitChars 10 ds 0 := by
  rw [decimalValue, Nat.ofDigits_eq_foldr, List.foldr_map, List.foldr_reverse, Nat.ofDigitChars]
  congr 1
  funext sofar c
  exact Nat.add_comm _ _

theorem digitsFrom_eq_some_iff : digitsFrom v cs = some m ↔
    (∀ c ∈ cs, c.isDigit = true) ∧ m = Nat.ofDigitChars 10 cs v := by
  induction cs generalizing v with
  | nil =>
    rw [digitsFrom, Option.some_inj, eq_comm]
    exact (and_iff_right (by simp)).symm
  | cons c cs ih =>
    rw [digitsFrom, Nat.ofDigitChars_cons, List.forall_mem_cons]
    by_cases hc : c.isDigit = true
    · rw [if_pos hc, ih, and_iff_right hc]
    · rw [if_neg hc]
      exact iff_of_false (by simp) fun h => hc h.1.1

theorem readNat?_eq_some_iff : readNat? cs = some m ↔ IsDecimal cs ∧ m = decimalValue cs := by
  rw [decimalValue_eq]
  cases cs with
  | nil => exact iff_of_false (by simp [readNat?]) fun h => h.1.ne_nil rfl
  | cons c cs =>
    rw [readNat?, digitsFrom_eq_some_iff]
    · exact and_congr_left fun _ => ⟨fun h => ⟨List.cons_ne_nil c cs, h⟩, IsDecimal.digit⟩
    · simp

/-- A sign is no digit, so digits are read as they stand. -/
theorem readInt?_of_isDecimal (h : IsDecimal ds) : readInt? ds = (readNat? ds).map Int.ofNat := by
  unfold readInt?
  split
  next => exact absurd (h.digit '-' (List.mem_cons_self ..)) (by decide)
  next => exact absurd (h.digit '+' (List.mem_cons_self ..)) (by decide)
  next => rfl

theorem readInt?_minus (ds : List Char) :
    readInt? ('-' :: ds) = (readNat? ds).map fun m : Nat => -(m : Int) := by
  cases h : readNat? ds <;> rw [readInt?, h] <;> rfl

theorem map_readNat?_eq_some_iff {f : Nat → Int} :
    (readNat? ds).map f = some n ↔ IsDecimal ds ∧ n = f (decimalValue ds) := by
  simp only [Option.map_eq_some_iff, readNat?_eq_some_iff]
  constructor
  · rintro ⟨_, ⟨hds, rfl⟩, rfl⟩
    exact ⟨hds, rfl⟩
  · rintro ⟨hds, rfl⟩
    exact ⟨_, ⟨hds, rfl⟩, rfl⟩

theorem readInt?_eq_some_iff : readInt? cs = some n ↔ SignedDecimal cs n := by
  constructor
  · intro h
    by_cases hminus : ∃ ds, cs = '-' :: ds
    · obtain ⟨ds, rfl⟩ := hminus
      rw [readInt?_minus] at h
      obtain ⟨hds, rfl⟩ := map_readNat?_eq_some_iff.mp h
      exact .minus hds
    · unfold readInt? at h
      split at h
      next ds => exact absurd ⟨ds, rfl⟩ hminus
      next =>
        obtain ⟨hds, rfl⟩ := map_readNat?_eq_some_iff.mp h
        exact .plus hds
      next =>
        obtain ⟨hds, rfl⟩ := map_readNat?_eq_some_iff.mp h
        exact .unsigned hds
  · intro h
    cases h with
    | unsigned hds =>
      rw [readInt?_of_isDecimal hds]
      exact map_readNat?_eq_some_iff.mpr ⟨hds, rfl⟩
    | plus hds => exact map_readNat?_eq_some_iff.mpr ⟨hds, rfl⟩
    | minus hds =>
      rw [readInt?_minus]
      exact map_readNat?_eq_some_iff.mpr ⟨hds, rfl⟩

theorem SignedDecimal.unique {n' : Int} (h : SignedDecimal cs n) (h' : SignedDecimal cs n') :
    n = n' :=
  Option.some.inj ((readInt?_eq_some_iff.mpr h).symm.trans (readInt?_eq_some_iff.mpr h'))

theorem readInt32?_eq_some_iff :
    readInt32? cs = some n ↔ SignedDecimal cs n ∧ -2 ^ 31 ≤ n ∧ n ≤ 2 ^ 31 - 1 := by
  rw [readInt32?, Option.filter_eq_some_iff, readInt?_eq_some_iff, decide_eq_true_eq]
  exact and_congr_right fun _ => by omega

theorem isBlank_of_isDigit {c : Char} (h : c.isDigit = true) : isBlank c = false := by
  rw [Char.isDigit_iff_toNat, show '0'.toNat = 48 from rfl, show '9'.toNat = 57 from rfl] at h
  simp [isBlank, blankRanges]
  omega

/-- There is no white space in a number. -/
theorem SignedDecimal.isBlank_eq_false (h : SignedDecimal core n) :
    ∀ c ∈ core, isBlank c = false := by
  have hdigits {ds : List Char} (hds : IsDecimal ds) : ∀ c ∈ ds, isBlank c = false :=
    fun c hc => isBlank_of_isDigit (hds.digit c hc)
  cases h with
  | unsigned hds => exact hdigits hds
  | plus hds => exact List.forall_mem_cons.mpr ⟨by decide, hdigits hds⟩
  | minus hds => exact List.forall_mem_cons.mpr ⟨by decide, hdigits hds⟩

theorem SignedDecimal.stripped (h : SignedDecimal core n) (hbefore : Blank before)
    (hafter : Blank after) : Stripped (before ++ core ++ after) core where
  around := ⟨before, after, hbefore, hafter, rfl⟩
  first c hc := h.isBlank_eq_false c (List.mem_of_mem_head? hc)
  last c hc := h.isBlank_eq_false c (List.mem_of_mem_getLast? hc)

theorem isDecimal_toDigits (m : Nat) : IsDecimal (Nat.toDigits 10 m) :=
  ⟨Nat.toDigits_ne_nil, fun _ hc => Nat.isDigit_of_mem_toDigits (by decide) (by decide) hc⟩

theorem decimalValue_toDigits (m : Nat) : decimalValue (Nat.toDigits 10 m) = m := by
  rw [decimalValue_eq]
  exact Nat.ofDigitChars_toDigits (by decide) (by decide)

theorem signedDecimal_toString (n : Int) : SignedDecimal (toString n).toList n := by
  rw [Int.toString_eq_repr]
  cases n with
  | ofNat m =>
    have h := SignedDecimal.unsigned (isDecimal_toDigits m)
    rw [decimalValue_toDigits] at h
    show SignedDecimal m.repr.toList m
    rwa [Nat.toList_repr]
  | negSucc m =>
    have h := SignedDecimal.minus (isDecimal_toDigits (m + 1))
    rw [decimalValue_toDigits] at h
    show SignedDecimal ("-" ++ (m + 1).repr).toList (-((m + 1 : Nat) : Int))
    rwa [String.toList_append, Nat.toList_repr]

theorem exitCodeOf_of_readInt32? {s : String} (h : readInt32? (trimBlank s.toList) = some n) :
    exitCodeOf (some s) = n := by
  rw [exitCodeOf, Option.bind_some, h]
  rfl

theorem exitCodeOf_of_none {s : String} (h : readInt32? (trimBlank s.toList) = none) :
    exitCodeOf (some s) = 73 := by
  rw [exitCodeOf, Option.bind_some, h]
  rfl

/-- A decimal number of 32 bits is read as this number, whatever white space is around it, and any
other text as 73. -/
theorem exitCodeOf_reads_int32 :
    exitCodeOf none = 73 ∧
    (∀ s : String, ∃! core, Stripped s.toList core) ∧
    (∀ (s : String) core, Stripped s.toList core →
      (∀ n, SignedDecimal core n → -2 ^ 31 ≤ n → n ≤ 2 ^ 31 - 1 → exitCodeOf (some s) = n) ∧
      ((∀ n, SignedDecimal core n → ¬(-2 ^ 31 ≤ n ∧ n ≤ 2 ^ 31 - 1)) → exitCodeOf (some s) = 73)) ∧
    ∀ (n : Int) (before after : String), -2 ^ 31 ≤ n → n ≤ 2 ^ 31 - 1 → Blank before.toList →
      Blank after.toList → exitCodeOf (some (before ++ toString n ++ after)) = n := by
  have hreads : ∀ (s : String) core, Stripped s.toList core →
      ∀ n, SignedDecimal core n → -2 ^ 31 ≤ n → n ≤ 2 ^ 31 - 1 → exitCodeOf (some s) = n := by
    intro s core hcore n hn hlo hhi
    refine exitCodeOf_of_readInt32? (readInt32?_eq_some_iff.mpr ⟨?_, hlo, hhi⟩)
    rwa [hcore.trimBlank_eq]
  refine ⟨rfl, fun s => ⟨_, stripped_trimBlank s.toList, fun core hcore => hcore.trimBlank_eq.symm⟩,
    fun s core hcore => ⟨hreads s core hcore, fun hother => ?_⟩,
    fun n before after hlo hhi hbefore hafter => ?_⟩
  · refine exitCodeOf_of_none (Option.eq_none_iff_forall_ne_some.mpr fun n hn => ?_)
    rw [hcore.trimBlank_eq] at hn
    obtain ⟨hdecimal, hrange⟩ := readInt32?_eq_some_iff.mp hn
    exact hother n hdecimal hrange
  · have hn := signedDecimal_toString n
    refine hreads _ _ ?_ n hn hlo hhi
    rw [String.toList_append, String.toList_append]
    exact hn.stripped hbefore hafter

/-- The lowest number of 32 bits, with zeros in front and white space around, and the first number
that is too high. -/
theorem exitCodeOf_reads_int32_at_ends :
    exitCodeOf (some "\u3000-002147483648\n") = -2147483648 ∧
      exitCodeOf (some " +2147483648") = 73 := by
  obtain ⟨_, _, hreads, _⟩ := exitCodeOf_reads_int32
  have hlow : SignedDecimal "-002147483648".toList (-2147483648) :=
    readInt?_eq_some_iff.mp (by decide +kernel)
  have hhigh : SignedDecimal "+2147483648".toList 2147483648 :=
    readInt?_eq_some_iff.mp (by decide +kernel)
  have hwide : Blank "\u3000".toList := by simp [Blank, isBlank, blankRanges]
  have hline : Blank "\n".toList := by simp [Blank, isBlank, blankRanges]
  have hblank : Blank " ".toList := by simp [Blank, isBlank, blankRanges]
  have hnone : Blank "".toList := by simp [Blank]
  obtain ⟨hlowest, _⟩ := hreads "\u3000-002147483648\n" _ (hlow.stripped hwide hline)
  obtain ⟨_, hrefused⟩ := hreads " +2147483648" _ (hhigh.stripped hblank hnone)
  refine ⟨hlowest _ hlow (by decide) (by decide), hrefused fun n hn => ?_⟩
  rw [hn.unique hhigh]
  decide

end PointerGuard
