import PointerGuard.Proofs.Trie.Copies

namespace PointerGuard.Trie

variable {mode : Mode} {t t' t₀ t₁ : Trie mode} {d s lo hi i n : Nat}

/-- A sound trie whose entries are trimmed to the mode. -/
structure Trimmed (t : Trie mode) : Prop extends t.Sound where
  keep : ∀ k, mode.keep (t.word k) = t.word k

theorem Trimmed.of_outside (h : t.Trimmed) (ho : Outside (fun _ => False) t t') : t'.Trimmed :=
  ⟨ho.sound h.toSound, fun k => by rw [ho.same h.toSound k id, h.keep]⟩

theorem Trimmed.store {addr : Word} {e : Metadata} (h : t.Trimmed) (hs : t.store addr e = .ok t') :
    t'.Trimmed := by
  refine ⟨h.toSound.store hs, fun k => ?_⟩
  rw [word_store h.toSound hs]
  split
  next => exact Mode.keep_keep ..
  next => exact h.keep k

theorem word_of_not_installed {addr : Word} (h : t.isInstalled addr = false) :
    t.word (wordOf addr) = .unknown := by
  rw [isInstalled, Option.isSome_eq_false_iff, Option.isNone_iff_eq_none] at h
  rw [← load_eq_word, load, h]

theorem word_of_tableOf_none {k : Nat} (h : t.tableOf (k / segmentWords) = none) :
    t.word k = .unknown := by
  rw [word, entry, h]

/-- Words that lie in one segment lie there one after the other. -/
theorem InOneSegment.place {addr : Word} (h : InOneSegment addr n) (hi : i < n) :
    (wordOf addr + i) / segmentWords = segmentOf addr ∧
      (wordOf addr + i) % segmentWords = cellOf addr + i := by
  have hseg : addr.toNat / 33554432 = (addr.toNat + 8 * (n - 1)) / 33554432 := h
  show (addr.toNat / 8 + i) / 4194304 = addr.toNat / 33554432 ∧
    (addr.toNat / 8 + i) % 4194304 = addr.toNat / 8 % 4194304 + i
  omega

/-- The number of entries that a copy moves if it succeeds. -/
def movedWords (src len : Word) : Nat := if src.toNat % 8 = 0 then len.toNat / 8 else 0

theorem movedWords_eq_zero {src len : Word} (h : src.toNat % 8 ≠ 0 ∨ len.toNat / 8 = 0) :
    movedWords src len = 0 := by
  rw [movedWords]
  rcases h with h | h
  · rw [if_neg h]
  · rw [h, ite_self]

theorem word_copyWord {dest src : Word} (ht : t.Trimmed) (h : t.copyWord dest src = .ok t')
    (k : Nat) : t'.word k = if k = wordOf dest then t.word (wordOf src) else t.word k := by
  unfold copyWord at h
  split at h
  next hz =>
    cases Except.ok.inj h
    split
    next hk =>
      rw [hk, word_of_not_installed hz.2, ← load_eq_word, hz.1]
      rfl
    next => rfl
  next =>
    rw [word_store ht.toSound h, load_eq_word, ht.keep]

theorem Trimmed.copyWord {dest src : Word} (h : t.Trimmed) (hc : t.copyWord dest src = .ok t') :
    t'.Trimmed := by
  unfold Trie.copyWord at hc
  split at hc
  next =>
    cases Except.ok.inj hc
    exact h
  next => exact h.store hc

/-- `t'` is `t` with the entries of the words from `s + lo` up to `s + hi` moved to those from
`d + lo` on. -/
structure Moved (d s lo hi : Nat) (t t' : Trie mode) : Prop where
  trimmed : t'.Trimmed
  moved : ∀ i, lo ≤ i → i < hi → t'.word (d + i) = t.word (s + i)
  same : ∀ k, (∀ i, lo ≤ i → i < hi → k ≠ d + i) → t'.word k = t.word k

namespace Moved

theorem of_words (ht : t.Trimmed) (hsound : t'.Sound)
    (hmoved : ∀ i, lo ≤ i → i < hi → t'.word (d + i) = t.word (s + i))
    (hsame : ∀ k, (∀ i, lo ≤ i → i < hi → k ≠ d + i) → t'.word k = t.word k) :
    Moved d s lo hi t t' := by
  refine ⟨⟨hsound, fun k => ?_⟩, hmoved, hsame⟩
  by_cases hk : ∃ i, lo ≤ i ∧ i < hi ∧ k = d + i
  · obtain ⟨i, hlo, hhi, rfl⟩ := hk
    rw [hmoved i hlo hhi, ht.keep]
  · rw [hsame k fun i hlo hhi heq => hk ⟨i, hlo, hhi, heq⟩, ht.keep]

theorem of_words_eq (hm : Moved d s lo hi t₁ t') (hw : ∀ k, t₁.word k = t.word k) :
    Moved d s lo hi t t' :=
  ⟨hm.trimmed, fun i hlo hhi => (hm.moved i hlo hhi).trans (hw _),
    fun k hk => (hm.same k hk).trans (hw k)⟩

theorem none (ht : t.Trimmed) (d s i : Nat) : Moved d s i i t t :=
  ⟨ht, fun _ _ _ => by omega, fun _ _ => rfl⟩

/-- The next word up is still as it was, for the destination does not begin above the source. -/
theorem copyWord_up {dest src : Word} (hm : Moved d s 0 i t₀ t) (hds : d ≤ s)
    (hd : wordOf dest = d + i) (hs : wordOf src = s + i) (hc : t.copyWord dest src = .ok t') :
    Moved d s 0 (i + 1) t₀ t' := by
  have hword := word_copyWord hm.trimmed hc
  have hunread : t.word (s + i) = t₀.word (s + i) := hm.same _ fun j _ hj => by omega
  refine ⟨hm.trimmed.copyWord hc, fun j _ hj => ?_, fun k hk => ?_⟩
  · rw [hword, hd, hs]
    by_cases hji : j = i
    · rw [hji, if_pos rfl, hunread]
    · rw [if_neg (by omega), hm.moved j (by omega) (by omega)]
  · rw [hword, hd, if_neg (hk i (by omega) (by omega))]
    exact hm.same k fun j hlo hj => hk j hlo (by omega)

/-- The next word down is still as it was, for the source does not begin above the destination. -/
theorem copyWord_down {dest src : Word} (hm : Moved d s (i + 1) n t₀ t) (hsd : s ≤ d) (hi : i < n)
    (hd : wordOf dest = d + i) (hs : wordOf src = s + i) (hc : t.copyWord dest src = .ok t') :
    Moved d s i n t₀ t' := by
  have hword := word_copyWord hm.trimmed hc
  have hunread : t.word (s + i) = t₀.word (s + i) := hm.same _ fun j hj _ => by omega
  refine ⟨hm.trimmed.copyWord hc, fun j hj hjn => ?_, fun k hk => ?_⟩
  · rw [hword, hd, hs]
    by_cases hji : j = i
    · rw [hji, if_pos rfl, hunread]
    · rw [if_neg (by omega), hm.moved j (by omega) hjn]
  · rw [hword, hd, if_neg (hk i (by omega) hi)]
    exact hm.same k fun j hj hjn => hk j (by omega) hjn

/-- However it ends, an upward copy has moved a first part of the words, and all if it succeeds. -/
theorem copyUp {dest src : Word} (hm : Moved (wordOf dest) (wordOf src) 0 i t₀ t)
    (hds : wordOf dest ≤ wordOf src) (hdest : dest.toNat + 8 * (i + n - 1) < 2 ^ 64)
    (hsrc : src.toNat + 8 * (i + n - 1) < 2 ^ 64) :
    ∃ m ≤ i + n, Moved (wordOf dest) (wordOf src) 0 m t₀ (t.copyUp dest src i n).2 ∧
      ((t.copyUp dest src i n).1 = .ok () → m = i + n) := by
  induction n generalizing t i with
  | zero => exact ⟨i, by omega, hm, fun _ => rfl⟩
  | succ n ih =>
    unfold Trie.copyUp
    split
    next => exact ⟨i, by omega, hm, fun h => by cases h⟩
    next t₁ hc =>
      have hstep := hm.copyWord_up hds (wordOf_wordAt (by omega)) (wordOf_wordAt (by omega)) hc
      rw [show i + (n + 1) = i + 1 + n by omega] at hdest hsrc ⊢
      exact ih hstep hdest hsrc

/-- However it ends, a downward copy has moved a last part of the words, and all if it succeeds. -/
theorem copyDown {dest src : Word} (hm : Moved (wordOf dest) (wordOf src) i n t₀ t) (hi : i ≤ n)
    (hsd : wordOf src ≤ wordOf dest) (hdest : dest.toNat + 8 * (n - 1) < 2 ^ 64)
    (hsrc : src.toNat + 8 * (n - 1) < 2 ^ 64) :
    ∃ m ≤ n, Moved (wordOf dest) (wordOf src) m n t₀ (t.copyDown dest src i).2 ∧
      ((t.copyDown dest src i).1 = .ok () → m = 0) := by
  induction i generalizing t with
  | zero => exact ⟨0, by omega, hm, fun _ => rfl⟩
  | succ i ih =>
    unfold Trie.copyDown
    split
    next => exact ⟨i + 1, hi, hm, fun h => by cases h⟩
    next t₁ hc =>
      have hstep := hm.copyWord_down hsd hi (wordOf_wordAt (by omega)) (wordOf_wordAt (by omega)) hc
      exact ih hstep (by omega)

theorem copyWords {dest src : Word} (ht : t.Trimmed)
    (hdest : dest.toNat + 8 * (n - 1) < 2 ^ 64) (hsrc : src.toNat + 8 * (n - 1) < 2 ^ 64) :
    ∃ lo hi, Moved (wordOf dest) (wordOf src) lo hi t (t.copyWords dest src n).2 ∧
      ((t.copyWords dest src n).1 = .ok () → lo = 0 ∧ hi = n) := by
  have hmono : ∀ {a b : Word}, a ≤ b → wordOf a ≤ wordOf b := fun h =>
    Nat.div_le_div_right (UInt64.le_iff_toNat_le.mp h)
  unfold Trie.copyWords
  split
  next hlt =>
    have hle : src ≤ dest := UInt64.le_iff_toNat_le.mpr (Nat.le_of_lt (UInt64.lt_iff_toNat_lt.mp hlt))
    obtain ⟨m, _, hm, hall⟩ := copyDown (none ht _ _ n) (Nat.le_refl n) (hmono hle) hdest hsrc
    exact ⟨m, n, hm, fun h => ⟨hall h, rfl⟩⟩
  next hlt =>
    obtain ⟨m, _, hm, hall⟩ := copyUp (n := n) (none ht _ _ 0) (hmono (UInt64.not_lt.mp hlt))
      (by rwa [Nat.zero_add]) (by rwa [Nat.zero_add])
    exact ⟨0, m, hm, fun h => ⟨rfl, by rw [hall h, Nat.zero_add]⟩⟩

theorem setTable {dest : Word} {table : Table Metadata} (ht : t.Trimmed)
    (hone : InOneSegment dest n) (hi : t.tableOf (segmentOf dest) = some i)
    (hlen : table.len = (t.tableAt i).len)
    (hget : ∀ j < n, table.get (cellOf dest + j) = t.word (s + j))
    (hsame : ∀ c, ¬(cellOf dest ≤ c ∧ c < cellOf dest + n) → table.get c = (t.tableAt i).get c) :
    Moved (wordOf dest) s 0 n t (t.setTable i table) := by
  have hout : Outside (fun k => ∃ j < n, k = wordOf dest + j) t (t.setTable i table) :=
    .setTable hi hlen hsame fun j hj => ⟨j, hj, rfl⟩
  refine of_words ht (hout.sound ht.toSound) (fun j _ hj => ?_) fun k hk => ?_
  · obtain ⟨hseg, hcell⟩ := hone.place hj
    rw [word, entry_setTable ht.toSound hi, hseg, if_pos rfl, hcell, hget j hj]
  · refine hout.same ht.toSound k ?_
    rintro ⟨j, hj, rfl⟩
    exact hk j (Nat.zero_le j) hj rfl

theorem copySlice {dest src : Word} (ht : t.Trimmed) (hdest : InOneSegment dest n)
    (hsrc : InOneSegment src n) (h : t.copySlice dest src n = .ok t') :
    Moved (wordOf dest) (wordOf src) 0 n t t' := by
  unfold Trie.copySlice at h
  split at h
  next hno =>
    have hzero : ∀ j < n, t.word (wordOf src + j) = .unknown := fun j hj =>
      word_of_tableOf_none ((hsrc.place hj).1 ▸ hno)
    split at h
    next hnone =>
      cases Except.ok.inj h
      refine of_words ht ht.toSound (fun j _ hj => ?_) fun _ _ => rfl
      rw [hzero j hj, word_of_tableOf_none ((hdest.place hj).1 ▸ hnone)]
    next i hi =>
      cases Except.ok.inj h
      refine setTable ht hdest hi (Table.len_clear ..) (fun j hj => ?_) fun c hc => ?_
      · rw [hzero j hj, Table.get_clear, if_pos (by omega)]
        rfl
      · rw [Table.get_clear, if_neg hc]
  next j hj =>
    split at h
    next => simp at h
    next i t₁ hi =>
      cases Except.ok.inj h
      have hwords : ∀ k, t₁.word k = t.word k := word_of_entry (entry_install ht.toSound hi)
      have ht₁ : t₁.Trimmed := ht.of_outside (.install hi)
      have hto : t₁.tableOf (segmentOf dest) = some i := by rw [tableOf_install hi, if_pos rfl]
      have hlen := Table.len_copyFrom (t₁.tableAt i) (t₁.tableAt j) (cellOf dest) (cellOf src) n
      refine of_words_eq (setTable ht₁ hdest hto hlen (fun c hc => ?_) fun c hc => ?_) hwords
      · obtain ⟨hseg, hcell⟩ := hsrc.place hc
        rw [Table.get_copyFrom, if_pos (by omega), hwords, word, entry, hseg, hcell, hj,
          tableAt_install hi (ht.lt hj), Nat.add_sub_cancel_left]
      · rw [Table.get_copyFrom, if_neg hc]

/-- However it ends, a copy of metadata has moved a first or a last part of the words; if it
succeeds, all of them. -/
theorem copyMetadata (ht : t.Trimmed) (dest src len : Word) :
    ∃ lo hi, Moved (wordOf dest) (wordOf src) lo hi t (t.copyMetadata dest src len).2 ∧
      ∀ n, (t.copyMetadata dest src len).1 = .ok n →
        lo = 0 ∧ hi = n ∧ n = movedWords src len ∧
        (0 < n → lastWord src n < 2 ^ 64 ∧ lastWord dest n < 2 ^ 64) := by
  have hnone : Moved (wordOf dest) (wordOf src) 0 0 t t := none ht _ _ 0
  unfold Trie.copyMetadata
  simp only
  split
  next hz =>
    refine ⟨0, 0, hnone, fun n hn => ?_⟩
    cases hn
    exact ⟨rfl, rfl, (movedWords_eq_zero hz).symm, by omega⟩
  next hz =>
    have hn : movedWords src len = len.toNat / 8 := if_pos (not_not.mp (not_or.mp hz).1)
    split
    next => exact ⟨0, 0, hnone, fun n hn => by cases hn⟩
    next hfit =>
      split
      next => exact ⟨0, 0, hnone, fun n hn => by cases hn⟩
      next hfit' =>
        rw [Nat.not_le] at hfit hfit'
        split
        next hone =>
          split
          next => exact ⟨0, 0, hnone, fun n hn => by cases hn⟩
          next t' hc =>
            refine ⟨0, _, copySlice ht hone.2 hone.1 hc, fun n hok => ?_⟩
            cases hok
            exact ⟨rfl, rfl, hn.symm, fun _ => ⟨hfit, hfit'⟩⟩
        next =>
          obtain ⟨lo, hi, hm, hall⟩ := copyWords ht hfit' hfit
          refine ⟨lo, hi, ?_⟩
          split
          next hc =>
            rw [hc] at hm
            exact ⟨hm, fun n hok => by cases hok⟩
          next hc =>
            rw [hc] at hm hall
            refine ⟨hm, fun n hok => ?_⟩
            cases hok
            exact ⟨(hall rfl).1, (hall rfl).2, hn.symm, fun _ => ⟨hfit, hfit'⟩⟩

end Moved

theorem reserve_secondary (host : Host) (mode : Mode) :
    ∃ base, Table.reserve host .secondary segmentWords (8 * mode.fields)
      = .ok (base, ({ len := segmentWords } : Table Metadata)) := by
  have hbytes : segmentWords * (8 * mode.fields) ≤ 1 <<< 27 := by cases mode <;> decide
  obtain ⟨base, hbase⟩ := Option.isSome_iff_exists.mp (host.grants_secondary _ hbytes)
  exact ⟨base, Table.reserve_of_map (by decide) (Nat.lt_of_le_of_lt hbytes (by decide)) hbase⟩

theorem install_succeeds (hs : s < t.primary.len) (hroom : t.tables.size < tableLimit) :
    ∃ i t', t.install s = .ok (i, t') := by
  obtain ⟨base, hreserve⟩ := reserve_secondary t.host mode
  unfold install
  cases t.tableOf s with
  | some i => exact ⟨i, t, rfl⟩
  | none =>
    simp only [hreserve, if_neg (Nat.not_le.mpr hs), if_neg (Nat.not_le.mpr hroom)]
    exact ⟨_, _, rfl⟩

theorem size_install (h : t.install s = .ok (i, t')) :
    t'.primary.len = t.primary.len ∧ t'.tables.size ≤ t.tables.size + 1 := by
  rcases install_eq_ok h with ⟨_, rfl⟩ | ⟨_, _, _, rfl⟩
  · exact ⟨rfl, Nat.le_succ _⟩
  · exact ⟨rfl, by simp⟩

theorem copyWord_succeeds {dest : Word} (src : Word) (hs : segmentOf dest < t.primary.len)
    (hroom : t.tables.size < tableLimit) :
    ∃ t', t.copyWord dest src = .ok t' ∧ t'.primary.len = t.primary.len ∧
      t'.tables.size ≤ t.tables.size + 1 := by
  unfold copyWord
  split
  next => exact ⟨t, rfl, rfl, Nat.le_succ _⟩
  next =>
    obtain ⟨i, t₁, hi⟩ := install_succeeds hs hroom
    obtain ⟨hlen, hsize⟩ := size_install hi
    refine ⟨t₁.setTable i _, by rw [store, hi], hlen, ?_⟩
    rwa [setTable, Array.size_setIfInBounds]

/-- A copy word by word succeeds if each word can be copied with `k` more to come. -/
theorem copyUp_of_steps {dest src : Word} {P : Nat → Trie mode → Prop}
    (hstep : ∀ j, i ≤ j → j < i + n → ∀ k t, P (k + 1) t →
      ∃ t', t.copyWord (wordAt dest j) (wordAt src j) = .ok t' ∧ P k t') (h : P n t) :
    (t.copyUp dest src i n).1 = .ok () ∧ P 0 (t.copyUp dest src i n).2 := by
  induction n generalizing t i with
  | zero => exact ⟨rfl, h⟩
  | succ n ih =>
    obtain ⟨t₁, hc, hnext⟩ := hstep i (Nat.le_refl i) (by omega) n t h
    rw [copyUp, hc]
    exact ih (fun j hj hlt => hstep j (by omega) (by omega)) hnext

theorem copyDown_of_steps {dest src : Word} {P : Nat → Trie mode → Prop}
    (hstep : ∀ j < n, ∀ k t, P (k + 1) t →
      ∃ t', t.copyWord (wordAt dest j) (wordAt src j) = .ok t' ∧ P k t') (h : P n t) :
    (t.copyDown dest src n).1 = .ok () ∧ P 0 (t.copyDown dest src n).2 := by
  induction n generalizing t with
  | zero => exact ⟨rfl, h⟩
  | succ n ih =>
    obtain ⟨t₁, hc, hnext⟩ := hstep n (Nat.lt_succ_self n) n t h
    rw [copyDown, hc]
    exact ih (fun j hj => hstep j (by omega)) hnext

theorem copyWords_of_steps {dest src : Word} {P : Nat → Trie mode → Prop}
    (hstep : ∀ j < n, ∀ k t, P (k + 1) t →
      ∃ t', t.copyWord (wordAt dest j) (wordAt src j) = .ok t' ∧ P k t') (h : P n t) :
    (t.copyWords dest src n).1 = .ok () ∧ P 0 (t.copyWords dest src n).2 := by
  unfold copyWords
  split
  next => exact copyDown_of_steps hstep h
  next => exact copyUp_of_steps (fun j _ hj => hstep j (by omega)) h

theorem segmentOf_wordAt_le {addr : Word} (hfit : lastWord addr n < 2 ^ 64) {j : Nat} (hj : j < n) :
    segmentOf (wordAt addr j) ≤ lastWord addr n / segmentBytes := by
  rw [lastWord] at hfit ⊢
  refine Nat.div_le_div_right ?_
  rw [toNat_wordAt (by omega)]
  omega

theorem copySlice_succeeds {dest : Word} (src : Word) (hs : segmentOf dest < t.primary.len)
    (hroom : t.tables.size < tableLimit) : ∃ t', t.copySlice dest src n = .ok t' := by
  obtain ⟨i, t₁, hi⟩ := install_succeeds hs hroom
  unfold copySlice
  cases t.tableOf (segmentOf src) with
  | none => cases t.tableOf (segmentOf dest) <;> exact ⟨_, rfl⟩
  | some j =>
    simp only [hi]
    exact ⟨_, rfl⟩

theorem copyWords_succeeds {dest : Word} (src : Word)
    (hs : ∀ j < n, segmentOf (wordAt dest j) < t.primary.len)
    (hroom : t.tables.size + n ≤ tableLimit) : (t.copyWords dest src n).1 = .ok () := by
  refine (copyWords_of_steps (P := fun k t' =>
    t'.primary.len = t.primary.len ∧ t'.tables.size + k ≤ tableLimit) ?_ ⟨rfl, hroom⟩).1
  rintro j hj k t' ⟨hlen, hroom'⟩
  obtain ⟨t₁, hc, hlen₁, hsize₁⟩ := copyWord_succeeds (wordAt src j) (hlen ▸ hs j hj) (by omega)
  exact ⟨t₁, hc, hlen₁.trans hlen, by omega⟩

/-- A copy between ranges of words, the destination within reach of the primary table, succeeds as
long as there are tables. -/
theorem copyMetadata_succeeds {dest src len : Word} (h : movedWords src len = 0 ∨
    lastWord src (movedWords src len) < 2 ^ 64 ∧ lastWord dest (movedWords src len) < 2 ^ 64 ∧
      lastWord dest (movedWords src len) / segmentBytes < t.primary.len ∧
      t.tables.size + movedWords src len ≤ tableLimit) :
    (t.copyMetadata dest src len).1 = .ok (movedWords src len) := by
  unfold copyMetadata
  simp only
  split
  next hz => rw [movedWords_eq_zero hz]
  next hz =>
    obtain ⟨hsrc, hwords⟩ := not_or.mp hz
    have hn : movedWords src len = len.toNat / 8 := if_pos (not_not.mp hsrc)
    rw [hn] at h ⊢
    obtain ⟨hfit, hfit', hreach, hroom⟩ := h.resolve_left hwords
    rw [if_neg (show ¬1 <<< 64 ≤ _ from Nat.not_le.mpr hfit),
      if_neg (show ¬1 <<< 64 ≤ _ from Nat.not_le.mpr hfit')]
    split
    next hone =>
      obtain ⟨t', ht'⟩ := copySlice_succeeds src (hone.2 ▸ hreach) (by omega : t.tables.size < _)
      rw [ht']
    next =>
      have hcopy := copyWords_succeeds src (fun j hj =>
        Nat.lt_of_le_of_lt (segmentOf_wordAt_le hfit' hj) hreach) hroom
      split
      next hc =>
        rw [hc] at hcopy
        cases hcopy
      next => rfl

end PointerGuard.Trie
