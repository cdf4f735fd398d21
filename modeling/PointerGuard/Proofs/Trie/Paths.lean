import PointerGuard.Proofs.Trie.Failures

namespace PointerGuard.Trie

variable {host : Host} {mode : Mode} {t t' t₁ t₂ : Trie mode} {s d i n : Nat} {dest src : Word}

/-- The segment has a table or can get one. -/
def Open (t : Trie mode) (s : Nat) : Prop :=
  (t.tableOf s).isSome ∨ s < t.primary.len ∧ t.tables.size < tableLimit

theorem open_iff_install : t.Open s ↔ ∃ i t', t.install s = .ok (i, t') := by
  constructor
  · rintro (hsome | ⟨hreach, hroom⟩)
    · obtain ⟨i, hi⟩ := Option.isSome_iff_exists.mp hsome
      exact ⟨i, t, by rw [install, hi]⟩
    · exact install_succeeds hreach hroom
  · rintro ⟨i, t', hi⟩
    rcases install_eq_ok hi with ⟨hsome, _⟩ | ⟨hnone, hreach, _⟩
    · exact Or.inl (Option.isSome_iff_exists.mpr ⟨i, hsome⟩)
    · refine Or.inr ⟨hreach, Nat.lt_of_not_le fun hfull => ?_⟩
      rw [install, hnone] at hi
      simp only [if_neg (Nat.not_le.mpr hreach), if_pos hfull] at hi
      cases hi

theorem Grown.size_le_limit (h : Grown t t') (ht : t.tables.size ≤ tableLimit) :
    t'.tables.size ≤ tableLimit := by
  induction h with
  | refl => exact ht
  | install _ hi ih =>
    have hopen := open_iff_install.mpr ⟨_, _, hi⟩
    rcases install_eq_ok hi with ⟨_, rfl⟩ | ⟨hnone, _, _, rfl⟩
    · exact ih
    · rcases hopen with hsome | ⟨_, hroom⟩
      · rw [hnone] at hsome
        cases hsome
      · rw [Array.size_push]
        exact hroom
  | setTable _ _ _ ih =>
    rw [Trie.setTable, Array.size_setIfInBounds]
    exact ih

theorem not_installed_of_not_open (h : ¬t.Open (segmentOf dest)) : t.isInstalled dest = false :=
  Bool.eq_false_of_not_eq_true fun hi => h (Or.inl hi)

theorem open_of_store {e : Metadata} (h : t.store dest e = .ok t') :
    t.Open (segmentOf dest) ∧ t'.Open (segmentOf dest) := by
  obtain ⟨i, t₁, hi, rfl⟩ := store_eq_ok h
  have hsome : t₁.tableOf (segmentOf dest) = some i := by rw [tableOf_install hi, if_pos rfl]
  exact ⟨open_iff_install.mpr ⟨i, t₁, hi⟩, Or.inl (Option.isSome_iff_exists.mpr ⟨i, hsome⟩)⟩

theorem copySlice_eq_ok_iff : (∃ t', t.copySlice dest src n = .ok t') ↔
    t.isInstalled src = false ∨ t.Open (segmentOf dest) := by
  constructor
  · rintro ⟨t', ht'⟩
    by_contra hno
    rw [not_or, Bool.not_eq_false] at hno
    obtain ⟨j, hj⟩ := Option.isSome_iff_exists.mp hno.1
    unfold copySlice at ht'
    rw [hj] at ht'
    simp only at ht'
    split at ht'
    next => cases ht'
    next i t₁ hi => exact hno.2 (open_iff_install.mpr ⟨i, t₁, hi⟩)
  · intro h
    cases hc : t.copySlice dest src n with
    | ok t' => exact ⟨t', rfl⟩
    | error v =>
      obtain ⟨hsrc, ⟨w, hw⟩, _⟩ := copySlice_eq_error hc
      rcases h with hno | hopen
      · rw [hno] at hsrc
        cases hsrc
      · obtain ⟨i, t₁, hi⟩ := open_iff_install.mp hopen
        cases hi.symm.trans hw

theorem Open.copyWord (h : t.Open (segmentOf dest)) (src : Word) :
    ∃ t', t.copyWord dest src = .ok t' ∧ t'.Open (segmentOf dest) := by
  obtain ⟨i, t₁, hi⟩ := open_iff_install.mp h
  unfold Trie.copyWord
  split
  next => exact ⟨t, rfl, h⟩
  next =>
    have hs : t.store dest (t.load src) = .ok
        (t₁.setTable i ((t₁.tableAt i).set (cellOf dest) (mode.keep (t.load src)))) := by
      rw [store, hi]
    exact ⟨_, hs, (open_of_store hs).2⟩

theorem Open.copyWords (h : t.Open s) (hs : ∀ j < n, segmentOf (wordAt dest j) = s) :
    (t.copyWords dest src n).1 = .ok () := by
  refine (copyWords_of_steps (P := fun _ t => t.Open s) (fun j hj _ t h => ?_) h).1
  have hopen : t.Open (segmentOf (wordAt dest j)) := hs j hj ▸ h
  obtain ⟨t', hc, hnext⟩ := hopen.copyWord (wordAt src j)
  exact ⟨t', hc, hs j hj ▸ hnext⟩

/-- Where there is no table for it, a word is copied exactly if its entry is zero, which leaves the
trie as it was. -/
theorem copyWord_of_not_open (h : ¬t.Open (segmentOf dest)) (src : Word) :
    t.load src = 0 ∧ t.copyWord dest src = .ok t ∨
      t.load src ≠ 0 ∧ ∃ v, t.copyWord dest src = .error v := by
  have hno := not_installed_of_not_open h
  by_cases hzero : t.load src = 0
  · exact Or.inl ⟨hzero, if_pos ⟨hzero, hno⟩⟩
  · refine Or.inr ⟨hzero, ?_⟩
    rw [copyWord, if_neg fun hz => hzero hz.1]
    cases hs : t.store dest (t.load src) with
    | ok t' => exact absurd (open_of_store hs).1 h
    | error v => exact ⟨v, rfl⟩

theorem copyUp_of_not_open (h : ¬t.Open s)
    (hs : ∀ j, i ≤ j → j < i + n → segmentOf (wordAt dest j) = s) :
    (t.copyUp dest src i n).1 = .ok () ↔ ∀ j, i ≤ j → j < i + n → t.load (wordAt src j) = 0 := by
  induction n generalizing i with
  | zero => exact ⟨fun _ j hij hj => by omega, fun _ => rfl⟩
  | succ n ih =>
    have hclosed : ¬t.Open (segmentOf (wordAt dest i)) := by
      rwa [hs i (Nat.le_refl i) (by omega)]
    unfold copyUp
    rcases copyWord_of_not_open hclosed (wordAt src i) with ⟨hzero, hc⟩ | ⟨hzero, v, hc⟩
    · rw [hc]
      refine (ih fun j hij hj => hs j (by omega) (by omega)).trans ⟨fun hz j hij hj => ?_, ?_⟩
      · rcases Nat.eq_or_lt_of_le hij with rfl | hlt
        · exact hzero
        · exact hz j hlt (by omega)
      · exact fun hz j hij hj => hz j (by omega) (by omega)
    · rw [hc]
      refine iff_of_false (fun hok => by cases hok) fun hz => ?_
      exact hzero (hz i (Nat.le_refl i) (by omega))

theorem copyDown_of_not_open (h : ¬t.Open s) (hs : ∀ j < n, segmentOf (wordAt dest j) = s) :
    (t.copyDown dest src n).1 = .ok () ↔ ∀ j < n, t.load (wordAt src j) = 0 := by
  induction n with
  | zero => exact ⟨fun _ j hj => by omega, fun _ => rfl⟩
  | succ n ih =>
    have hclosed : ¬t.Open (segmentOf (wordAt dest n)) := by rwa [hs n (Nat.lt_succ_self n)]
    unfold copyDown
    rcases copyWord_of_not_open hclosed (wordAt src n) with ⟨hzero, hc⟩ | ⟨hzero, v, hc⟩
    · rw [hc]
      refine (ih fun j hj => hs j (by omega)).trans ⟨fun hz j hj => ?_, ?_⟩
      · rcases Nat.lt_succ_iff_lt_or_eq.mp hj with hlt | rfl
        · exact hz j hlt
        · exact hzero
      · exact fun hz j hj => hz j (by omega)
    · rw [hc]
      refine iff_of_false (fun hok => by cases hok) fun hz => ?_
      exact hzero (hz n (Nat.lt_succ_self n))

theorem InOneSegment.lastWord_lt {addr : Word} (h : InOneSegment addr n) :
    lastWord addr n < 2 ^ 64 := by
  have hword := addr.toNat_lt
  have hseg : addr.toNat / 33554432 = lastWord addr n / 33554432 := h
  omega

theorem InOneSegment.segmentOf_wordAt {addr : Word} (h : InOneSegment addr n) {j : Nat}
    (hj : j < n) : segmentOf (wordAt addr j) = segmentOf addr := by
  have hfit := h.lastWord_lt
  rw [lastWord] at hfit
  rw [segmentOf_eq, wordOf_wordAt (by omega)]
  exact (h.place hj).1

/-- A copy word by word into one segment succeeds exactly if there is a table for it or all that is
copied is zero. -/
theorem copyWords_eq_ok_iff (hdest : InOneSegment dest n) :
    (t.copyWords dest src n).1 = .ok () ↔
      (∀ j < n, t.load (wordAt src j) = 0) ∨ t.Open (segmentOf dest) := by
  by_cases hopen : t.Open (segmentOf dest)
  · exact iff_of_true (hopen.copyWords fun j hj => hdest.segmentOf_wordAt hj) (Or.inr hopen)
  · rw [or_iff_left hopen]
    unfold copyWords
    split
    next => exact copyDown_of_not_open hopen fun j hj => hdest.segmentOf_wordAt hj
    next =>
      refine (copyUp_of_not_open hopen fun j _ hj => hdest.segmentOf_wordAt (by omega)).trans ?_
      exact ⟨fun hz j hj => hz j (Nat.zero_le j) (by omega), fun hz j _ hj => hz j (by omega)⟩

/-- What is moved determines all entries. -/
theorem Moved.word_unique (h₁ : Moved d s 0 n t t₁) (h₂ : Moved d s 0 n t t₂) (k : Nat) :
    t₁.word k = t₂.word k := by
  by_cases hk : ∃ i, i < n ∧ k = d + i
  · obtain ⟨i, hi, rfl⟩ := hk
    rw [h₁.moved i (Nat.zero_le i) hi, h₂.moved i (Nat.zero_le i) hi]
  · have hout : ∀ i, 0 ≤ i → i < n → k ≠ d + i := fun i _ hi heq => hk ⟨i, hi, heq⟩
    rw [h₁.same k hout, h₂.same k hout]

theorem load_copySlice_eq_copyWords (ht : t.Trimmed) (hdest : InOneSegment dest n)
    (hsrc : InOneSegment src n) (hslice : t.copySlice dest src n = .ok t')
    (hwords : (t.copyWords dest src n).1 = .ok ()) (addr : Word) :
    t'.load addr = (t.copyWords dest src n).2.load addr := by
  obtain ⟨lo, hi, hmoved, hall⟩ :=
    Moved.copyWords (n := n) ht hdest.lastWord_lt hsrc.lastWord_lt
  obtain ⟨rfl, rfl⟩ := hall hwords
  rw [load_eq_word, load_eq_word]
  exact (Moved.copySlice ht hdest hsrc hslice).word_unique hmoved _

/-- Within one segment each, a slice and a copy word by word agree, but that the slice is refused
for zeros that nothing could be stored over. -/
theorem copySlice_agrees_or_refuses_zeros {primaryEntries : Nat} {policy : InstallPolicy}
    (hc : Trie.create host primaryEntries policy = .ok t) (rs : List Request)
    (hsrc : InOneSegment src n) (hdest : InOneSegment dest n) :
    let before := t.after rs
    let zeros := ∀ i < n, before.load (wordAt src i) = 0
    let room := before.Open (segmentOf dest)
    let words := before.copyWords dest src n
    ((∃ t', before.copySlice dest src n = .ok t') ↔ before.isInstalled src = false ∨ room) ∧
    (words.1 = .ok () ↔ zeros ∨ room) ∧
    (∀ t', before.copySlice dest src n = .ok t' →
      words.1 = .ok () ∧ ∀ addr, t'.load addr = words.2.load addr) ∧
    ((words.1 = .ok () ∧ ∀ t', before.copySlice dest src n ≠ .ok t') ↔
      before.isInstalled src = true ∧ zeros ∧ ¬room) := by
  intro before zeros room words
  have ht : before.Trimmed := trimmed_after (trimmed_create hc) rs
  have hslice : (∃ t', before.copySlice dest src n = .ok t') ↔
      before.isInstalled src = false ∨ room := copySlice_eq_ok_iff
  have hwords : words.1 = .ok () ↔ zeros ∨ room := copyWords_eq_ok_iff hdest
  -- A source without a table holds zeros only.
  have hempty : before.isInstalled src = false → zeros := by
    intro hno i hi
    rw [isInstalled, Option.isSome_eq_false_iff, Option.isNone_iff_eq_none] at hno
    rw [load, hsrc.segmentOf_wordAt hi, hno]
    rfl
  refine ⟨hslice, hwords, fun t' ht' => ?_, ?_⟩
  · have hok : words.1 = .ok () := hwords.mpr ((hslice.mp ⟨t', ht'⟩).imp_left hempty)
    exact ⟨hok, load_copySlice_eq_copyWords ht hdest hsrc ht' hok⟩
  · rw [hwords, ← not_exists, hslice, not_or, Bool.not_eq_false]
    constructor
    · rintro ⟨hok, hinst, hclosed⟩
      exact ⟨hinst, hok.resolve_right hclosed, hclosed⟩
    · rintro ⟨hinst, hzeros, hclosed⟩
      exact ⟨Or.inl hzeros, hinst, hclosed⟩

/-- Elsewhere in the segment of the source something was stored. -/
theorem copySlice_refuses_zeros_beyond_reach :
    ∃ t : Trie .combined, Trie.create .standard 4 .lazy = .ok t ∧
      InOneSegment 0x2000 2 ∧ InOneSegment 0x8000000 2 ∧
      let before := t.after [.store 0x1000 ⟨1, 2, 3, 4⟩]
      (before.copyWords 0x8000000 0x2000 2).1 = .ok () ∧
      ∀ t', before.copySlice 0x8000000 0x2000 2 ≠ .ok t' := by
  obtain ⟨t, hc, hinst, hzeros, hclosed⟩ : ∃ t : Trie .combined,
      Trie.create .standard 4 .lazy = .ok t ∧
      (t.after [.store 0x1000 ⟨1, 2, 3, 4⟩]).isInstalled 0x2000 = true ∧
      (∀ i < 2, (t.after [.store 0x1000 ⟨1, 2, 3, 4⟩]).load (wordAt 0x2000 i) = 0) ∧
      ¬(t.after [.store 0x1000 ⟨1, 2, 3, 4⟩]).Open (segmentOf 0x8000000) := by
    refine ⟨_, rfl, rfl, by decide, ?_⟩
    rintro (hsome | ⟨hreach, _⟩)
    · cases hsome
    · exact absurd hreach (by decide)
  have hsrc : InOneSegment 0x2000 2 := by decide
  have hdest : InOneSegment 0x8000000 2 := by decide
  obtain ⟨_, _, _, hdiffer⟩ :=
    copySlice_agrees_or_refuses_zeros hc [.store 0x1000 ⟨1, 2, 3, 4⟩] hsrc hdest
  exact ⟨t, hc, hsrc, hdest, hdiffer.mpr ⟨hinst, hzeros, hclosed⟩⟩

/-- The slice that succeeded is refused once something was stored elsewhere in the segment of its
source, and the copy word by word is not. -/
theorem copySlice_refused_after_unrelated_store :
    ∃ t : Trie .combined, Trie.create .standard 4 .lazy = .ok t ∧
      let before := t.after [.store 0x1000 ⟨1, 2, 3, 4⟩]
      InOneSegment 0x2000 1 ∧ InOneSegment 0x8000000 1 ∧
      before.load 0x2000 = t.load 0x2000 ∧
      (t.copyMetadata 0x8000000 0x2000 8).1 = .ok 1 ∧
      before.copySlice 0x8000000 0x2000 1 = .error (.untrackableAddress 0x8000000) ∧
      (before.copyMetadata 0x8000000 0x2000 8).1 = .error (.untrackableAddress 0x8000000) ∧
      (before.copyWords 0x8000000 0x2000 1).1 = .ok () :=
  ⟨_, rfl, by decide, by decide, rfl, rfl, rfl, rfl, rfl⟩

end PointerGuard.Trie
