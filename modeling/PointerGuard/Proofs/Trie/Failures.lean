import PointerGuard.Proofs.Trie.Directory

namespace PointerGuard.Trie

variable {host : Host}
variable {mode : Mode} {t t' : Trie mode} {s i n : Nat} {dest src : Word} {v : Violation}

theorem install_eq_error (h : t.install s = .error v) :
    t.tableOf s = none ∧ (t.primary.len ≤ s ∧ v = .untrackableAddress (.ofNat (s * segmentBytes)) ∨
      s < t.primary.len ∧ tableLimit ≤ t.tables.size ∧ v = .exhausted .secondaryTable) := by
  by_cases hs : s < t.primary.len ∧ t.tables.size < tableLimit
  · obtain ⟨i, t₁, hi⟩ := install_succeeds hs.1 hs.2
    cases h.symm.trans hi
  · unfold install at h
    split at h
    next => cases h
    next hnone =>
      refine ⟨hnone, ?_⟩
      split at h
      next hreach =>
        cases h
        exact Or.inl ⟨hreach, rfl⟩
      next hreach =>
        rw [Nat.not_le] at hreach
        rw [if_pos (by omega)] at h
        cases h
        exact Or.inr ⟨hreach, by omega, rfl⟩

theorem store_eq_error {addr : Word} {e : Metadata} (h : t.store addr e = .error v) :
    t.isInstalled addr = false ∧ (t.primary.len ≤ segmentOf addr ∧ v = .untrackableAddress addr ∨
      segmentOf addr < t.primary.len ∧ tableLimit ≤ t.tables.size ∧
        v = .exhausted .secondaryTable) := by
  unfold store at h
  split at h
  next w hw =>
    cases h
    obtain ⟨hnone, hwhy⟩ := install_eq_error hw
    refine ⟨by rw [isInstalled, hnone]; rfl, ?_⟩
    rcases hwhy with ⟨hreach, rfl⟩ | ⟨hreach, hfull, rfl⟩
    · exact Or.inl ⟨hreach, rfl⟩
    · exact Or.inr ⟨hreach, hfull, rfl⟩
  next => cases h

theorem copyWord_eq_error (h : t.copyWord dest src = .error v) :
    t.load src ≠ 0 ∧ t.isInstalled dest = false ∧
      (t.primary.len ≤ segmentOf dest ∧ v = .untrackableAddress dest ∨
        segmentOf dest < t.primary.len ∧ tableLimit ≤ t.tables.size ∧
          v = .exhausted .secondaryTable) := by
  unfold copyWord at h
  split at h
  next => cases h
  next hkept =>
    obtain ⟨hno, hwhy⟩ := store_eq_error h
    exact ⟨fun hz => hkept ⟨hz, hno⟩, hno, hwhy⟩

/-- An entry that is not zero lies within reach. -/
theorem segmentOf_lt_of_load (h : t.load src ≠ 0) : segmentOf src < t.primary.len := by
  cases hi : t.tableOf (segmentOf src) with
  | some i => exact lt_of_tableOf hi
  | none =>
    refine absurd ?_ h
    rw [load, hi]
    rfl

/-- A word is skipped, or it lies within reach. -/
theorem eq_or_lt_of_copyWord (h : t.copyWord dest src = .ok t') :
    t' = t ∨ segmentOf dest < t.primary.len := by
  unfold copyWord at h
  split at h
  next => exact Or.inl (Except.ok.inj h).symm
  next =>
    obtain ⟨i, t₁, hi, _⟩ := store_eq_ok h
    rcases install_eq_ok hi with ⟨hsome, _⟩ | ⟨_, hlt, _⟩
    · exact Or.inr (lt_of_tableOf hsome)
    · exact Or.inr hlt

theorem Grown.copyWord (h : t.copyWord dest src = .ok t') : Grown t t' :=
  (Outside.copyWord (W := fun _ => True) h trivial).grown

theorem copyUp_stops (h : (t.copyUp dest src i n).1 = .error v) :
    ∃ j t₁, i ≤ j ∧ j < i + n ∧ Grown t t₁ ∧
      t₁.copyWord (wordAt dest j) (wordAt src j) = .error v := by
  induction n generalizing t i with
  | zero => cases h
  | succ n ih =>
    unfold copyUp at h
    split at h
    next hc =>
      cases h
      exact ⟨i, t, Nat.le_refl i, by omega, .refl t, hc⟩
    next t₂ hc =>
      obtain ⟨j, t₁, hij, hj, hgrown, herror⟩ := ih h
      exact ⟨j, t₁, by omega, by omega, (Grown.copyWord hc).trans hgrown, herror⟩

theorem copyDown_stops (h : (t.copyDown dest src n).1 = .error v) :
    ∃ j t₁, j < n ∧ Grown t t₁ ∧ t₁.copyWord (wordAt dest j) (wordAt src j) = .error v := by
  induction n generalizing t with
  | zero => cases h
  | succ n ih =>
    unfold copyDown at h
    split at h
    next hc =>
      cases h
      exact ⟨n, t, Nat.lt_succ_self n, .refl t, hc⟩
    next t₂ hc =>
      obtain ⟨j, t₁, hj, hgrown, herror⟩ := ih h
      exact ⟨j, t₁, by omega, (Grown.copyWord hc).trans hgrown, herror⟩

theorem copyWords_stops (h : (t.copyWords dest src n).1 = .error v) :
    ∃ j t₁, j < n ∧ Grown t t₁ ∧ t₁.copyWord (wordAt dest j) (wordAt src j) = .error v := by
  unfold copyWords at h
  split at h
  next => exact copyDown_stops h
  next =>
    obtain ⟨j, t₁, _, hj, hgrown, herror⟩ := copyUp_stops h
    exact ⟨j, t₁, by omega, hgrown, herror⟩

theorem segmentOf_wordAt_mono {a b : Word} {j k : Nat} (hle : a.toNat + 8 * j ≤ b.toNat + 8 * k)
    (hb : b.toNat + 8 * k < 2 ^ 64) : segmentOf (wordAt a j) ≤ segmentOf (wordAt b k) := by
  apply Nat.div_le_div_right
  rw [toNat_wordAt (by omega), toNat_wordAt hb]
  exact hle

/-- What is out of reach of an upward copy's destination is out of reach of its source. -/
theorem copyUp_error (hle : dest ≤ src) (hsrc : src.toNat + 8 * (i + n - 1) < 2 ^ 64)
    (h : (t.copyUp dest src i n).1 = .error v) : v = .exhausted .secondaryTable := by
  obtain ⟨j, t₁, hij, hj, hgrown, herror⟩ := copyUp_stops h
  obtain ⟨hload, _, hwhy⟩ := copyWord_eq_error herror
  rcases hwhy with ⟨hout, _⟩ | ⟨_, _, hv⟩
  -- The word that was read is not zero, so it lies within reach, and the other lies below it.
  · have hlt := segmentOf_lt_of_load hload
    have hword := UInt64.le_iff_toNat_le.mp hle
    have hmono : segmentOf (wordAt dest j) ≤ segmentOf (wordAt src j) :=
      segmentOf_wordAt_mono (by omega) (by omega)
    omega
  · exact hv

/-- Below a word within reach there is none out of reach. -/
theorem copyDown_error (hfit : dest.toNat + 8 * n < 2 ^ 64)
    (hreach : segmentOf (wordAt dest n) < t.primary.len)
    (h : (t.copyDown dest src n).1 = .error v) : v = .exhausted .secondaryTable := by
  obtain ⟨j, t₁, hj, hgrown, herror⟩ := copyDown_stops h
  obtain ⟨_, _, hwhy⟩ := copyWord_eq_error herror
  rcases hwhy with ⟨hout, _⟩ | ⟨_, _, hv⟩
  · have hlen := hgrown.len
    have hmono : segmentOf (wordAt dest j) ≤ segmentOf (wordAt dest n) :=
      segmentOf_wordAt_mono (by omega) (by omega)
    omega
  · exact hv

/-- A downward copy stops before its first write, or not for want of reach. -/
theorem copyDown_unchanged (hfit : dest.toNat + 8 * (n - 1) < 2 ^ 64)
    (h : (t.copyDown dest src n).1 = .error v) (hv : v ≠ .exhausted .secondaryTable) :
    (t.copyDown dest src n).2 = t := by
  induction n generalizing t with
  | zero => cases h
  | succ n ih =>
    unfold copyDown at h ⊢
    split at h
    next => rfl
    next t₁ hc =>
      rcases eq_or_lt_of_copyWord hc with rfl | hreach
      · exact ih (by omega) h
      · rw [← (Grown.copyWord hc).len] at hreach
        exact absurd (copyDown_error (by omega) hreach h) hv

theorem copyWords_unchanged (hdest : dest.toNat + 8 * (n - 1) < 2 ^ 64)
    (hsrc : src.toNat + 8 * (n - 1) < 2 ^ 64) (h : (t.copyWords dest src n).1 = .error v)
    (hv : v ≠ .exhausted .secondaryTable) : (t.copyWords dest src n).2 = t := by
  unfold copyWords at h ⊢
  split
  next hlt =>
    rw [if_pos hlt] at h
    exact copyDown_unchanged hdest h hv
  next hlt =>
    rw [if_neg hlt] at h
    exact absurd (copyUp_error (UInt64.not_lt.mp hlt) (by rwa [Nat.zero_add]) h) hv

/-- A slice is refused for want of a table for the destination, whose address is blamed. -/
theorem copySlice_eq_error (h : t.copySlice dest src n = .error v) :
    t.isInstalled src = true ∧ (∃ w, t.install (segmentOf dest) = .error w) ∧
      v = .untrackableAddress dest := by
  unfold copySlice at h
  split at h
  next => split at h <;> cases h
  next hsrc =>
    split at h
    next w hw =>
      cases h
      exact ⟨by rw [isInstalled, hsrc]; rfl, ⟨w, hw⟩, rfl⟩
    next => cases h

/-- A copy fails before it begins, or word by word. -/
theorem copyMetadata_eq_error {len : Word} (h : (t.copyMetadata dest src len).1 = .error v) :
    (t.copyMetadata dest src len).2 = t ∧ v ≠ .exhausted .secondaryTable ∨
      ∃ n, lastWord dest n < 2 ^ 64 ∧ lastWord src n < 2 ^ 64 ∧
        (t.copyWords dest src n).1 = .error v ∧
        (t.copyMetadata dest src len).2 = (t.copyWords dest src n).2 := by
  unfold copyMetadata at h ⊢
  simp only at h ⊢
  split at h
  next => cases h
  next hz =>
    rw [if_neg hz]
    split at h
    next hfit =>
      cases h
      rw [if_pos hfit]
      exact Or.inl ⟨rfl, by simp⟩
    next hsrc =>
      rw [if_neg hsrc]
      split at h
      next hfit =>
        cases h
        rw [if_pos hfit]
        exact Or.inl ⟨rfl, by simp⟩
      next hdest =>
        rw [if_neg hdest]
        split at h
        next hone =>
          rw [if_pos hone]
          split at h
          next hc =>
            cases h
            obtain ⟨_, _, rfl⟩ := copySlice_eq_error hc
            exact Or.inl ⟨rfl, by simp⟩
          next => cases h
        next hone =>
          rw [if_neg hone]
          refine Or.inr ⟨len.toNat / 8, Nat.lt_of_not_le hdest, Nat.lt_of_not_le hsrc, ?_⟩
          split at h
          next hc =>
            cases h
            rw [hc]
            exact ⟨rfl, rfl⟩
          next => cases h

theorem grown_step (t : Trie mode) (r : Request) : Grown t (t.step r) := by
  cases r with
  | store addr e =>
    rw [step]
    cases hs : t.store addr e with
    | error v => exact .refl t
    | ok t' => exact .store hs
  | copyMetadata dest src len =>
    exact (Outside.copyMetadata (W := fun _ => True) fun _ _ => trivial).grown
  | preallocate addr => exact (Outside.preallocate (W := fun _ => True) addr).grown
  | preallocateRange start len =>
    exact (Outside.preallocateRange (W := fun _ => True) start len).grown

theorem grown_after (t : Trie mode) (rs : List Request) : Grown t (t.after rs) :=
  Runs.foldl_invariant (fun _ r h => h.trans (grown_step _ r)) rs (.refl t)

/-- While a segment within reach has no table, there is a number for it, if the slots can number
them all. -/
theorem Directory.size_lt (ht : t.Directory) (hreach : s < t.primary.len)
    (hnone : t.tableOf s = none) : t.tables.size < t.primary.len := by
  have hproper : t.installed ⊂ Finset.range t.primary.len :=
    Finset.ssubset_iff_subset_ne.mpr ⟨Finset.filter_subset .., fun heq =>
      notMem_installed hnone (heq ▸ Finset.mem_range.mpr hreach)⟩
  have hcard := Finset.card_lt_card hproper
  rwa [ht.count, Finset.card_range] at hcard

theorem Directory.copyWords_error (ht : t.Directory) (hlen : t.primary.len ≤ tableLimit)
    (h : (t.copyWords dest src n).1 = .error v) : v ≠ .exhausted .secondaryTable := by
  obtain ⟨j, t₁, _, hgrown, herror⟩ := copyWords_stops h
  obtain ⟨_, hno, hwhy⟩ := copyWord_eq_error herror
  rcases hwhy with ⟨_, rfl⟩ | ⟨hreach, hfull, _⟩
  · simp
  · rw [isInstalled, Option.isSome_eq_false_iff, Option.isNone_iff_eq_none] at hno
    have hroom := (hgrown.directory ht).size_lt hreach hno
    rw [hgrown.len] at hroom
    omega

/-- A copy of metadata that fails leaves the trie as it was, unless the numbers of tables have run
out. -/
theorem failing_copyMetadata_changes_nothing {primaryEntries : Nat} {policy : InstallPolicy}
    (hc : Trie.create host primaryEntries policy = .ok t) (rs : List Request) (dest src len : Word)
    (v : Violation) (hfail : ((t.after rs).copyMetadata dest src len).1 = .error v) :
    (v ≠ .exhausted .secondaryTable →
      ((t.after rs).copyMetadata dest src len).2 = t.after rs) ∧
    (primaryEntries ≤ tableLimit → v ≠ .exhausted .secondaryTable) := by
  rcases copyMetadata_eq_error hfail with ⟨hsame, hv⟩ | ⟨n, hdest, hsrc, hwords, hsame⟩
  · exact ⟨fun _ => hsame, fun _ => hv⟩
  · rw [hsame]
    refine ⟨copyWords_unchanged hdest hsrc hwords, fun hslots => ?_⟩
    have hgrown := grown_after t rs
    have hlen : (t.after rs).primary.len = primaryEntries := by
      rw [hgrown.len, create_eq_ok hc]
    exact (hgrown.directory (directory_create hc)).copyWords_error (hlen ▸ hslots) hwords

/-- The destination begins inside the primary table and ends beyond it, and so does the source, of
which only the first words have entries. -/
theorem failing_copyMetadata_changes_nothing_at_end :
    ∃ t : Trie .combined, Trie.create .standard 4 .lazy = .ok t ∧
      let before := t.after [.store 0x7ffffe0 ⟨1, 2, 3, 4⟩, .store 0x7ffffe8 ⟨5, 6, 7, 8⟩]
      (before.copyMetadata 0x7fffff8 0x7ffffe0 32).1 = .error (.untrackableAddress 0x8000000) ∧
      (before.copyMetadata 0x7fffff8 0x7ffffe0 32).2 = before := by
  obtain ⟨t, hc, hfail⟩ : ∃ t : Trie .combined, Trie.create .standard 4 .lazy = .ok t ∧
      ((t.after [.store 0x7ffffe0 ⟨1, 2, 3, 4⟩, .store 0x7ffffe8 ⟨5, 6, 7, 8⟩]).copyMetadata
        0x7fffff8 0x7ffffe0 32).1 = .error (.untrackableAddress 0x8000000) :=
    ⟨_, rfl, rfl⟩
  have hsame := failing_copyMetadata_changes_nothing hc _ 0x7fffff8 0x7ffffe0 32 _ hfail
  exact ⟨t, hc, hfail, hsame.1 (by decide)⟩

end PointerGuard.Trie
