import PointerGuard.Proofs.Trie.Words

namespace PointerGuard.Trie

variable {mode : Mode} {t t' : Trie mode} {W : Nat → Prop}

theorem toNat_wordAt {addr : Word} {i : Nat} (h : addr.toNat + 8 * i < 2 ^ 64) :
    (wordAt addr i).toNat = addr.toNat + 8 * i := by
  rw [wordAt, UInt64.toNat_add, toNat_ofNat_of_lt (by omega), Nat.mod_eq_of_lt h]

theorem wordOf_wordAt {addr : Word} {i : Nat} (h : addr.toNat + 8 * i < 2 ^ 64) :
    wordOf (wordAt addr i) = wordOf addr + i := by
  rw [wordOf, toNat_wordAt h, Nat.add_mul_div_left _ _ (by omega)]
  rfl

namespace Outside

theorem copyWord {dest src : Word} (h : t.copyWord dest src = .ok t') (hw : W (wordOf dest)) :
    Outside W t t' := by
  unfold Trie.copyWord at h
  split at h
  next =>
    cases Except.ok.inj h
    exact refl W _
  next => exact store h hw

theorem copyUp {dest src : Word} {i n : Nat} (hfit : dest.toNat + 8 * (i + n - 1) < 2 ^ 64)
    (hw : ∀ j, i ≤ j → j < i + n → W (wordOf dest + j)) :
    Outside W t (t.copyUp dest src i n).2 := by
  induction n generalizing t i with
  | zero => exact refl W t
  | succ n ih =>
    unfold Trie.copyUp
    split
    next => exact refl W t
    next hc =>
      have hword : wordOf (wordAt dest i) = wordOf dest + i := wordOf_wordAt (by omega)
      refine (copyWord hc (hword ▸ hw i (Nat.le_refl i) (by omega))).trans (ih ?_ ?_)
      · rwa [show i + 1 + n - 1 = i + (n + 1) - 1 by omega]
      · exact fun j hj hlt => hw j (by omega) (by omega)

theorem copyDown {dest src : Word} {n : Nat} (hfit : dest.toNat + 8 * (n - 1) < 2 ^ 64)
    (hw : ∀ j < n, W (wordOf dest + j)) : Outside W t (t.copyDown dest src n).2 := by
  induction n generalizing t with
  | zero => exact refl W t
  | succ n ih =>
    unfold Trie.copyDown
    split
    next => exact refl W t
    next hc =>
      have hword : wordOf (wordAt dest n) = wordOf dest + n :=
        wordOf_wordAt (by simpa using hfit)
      refine (copyWord hc (hword ▸ hw n (Nat.lt_succ_self n))).trans (ih (by omega) ?_)
      exact fun j hj => hw j (by omega)

theorem copyWords {dest src : Word} {n : Nat} (hfit : dest.toNat + 8 * (n - 1) < 2 ^ 64)
    (hw : ∀ j < n, W (wordOf dest + j)) : Outside W t (t.copyWords dest src n).2 := by
  unfold Trie.copyWords
  split
  next => exact copyDown hfit hw
  next => exact copyUp (by simpa using hfit) fun j _ hj => hw j (by omega)

theorem setTable {dest : Word} {n i : Nat} {table : Table Metadata}
    (hi : t.tableOf (segmentOf dest) = some i) (hlen : table.len = (t.tableAt i).len)
    (hsame : ∀ c, ¬(cellOf dest ≤ c ∧ c < cellOf dest + n) → table.get c = (t.tableAt i).get c)
    (hw : ∀ j < n, W (wordOf dest + j)) : Outside W t (t.setTable i table) := by
  refine ⟨(Grown.refl t).setTable hi hlen, fun ht k hk => ?_⟩
  rw [word, entry_setTable ht hi]
  by_cases hs : k / segmentWords = segmentOf dest
  · have hc : ¬(cellOf dest ≤ k % segmentWords ∧ k % segmentWords < cellOf dest + n) := by
      rintro ⟨hle, hlt⟩
      have hk' := Nat.div_add_mod k segmentWords
      have hd : segmentWords * segmentOf dest + cellOf dest = wordOf dest := by
        rw [segmentOf_eq]
        exact Nat.div_add_mod (wordOf dest) segmentWords
      rw [hs] at hk'
      have heq : wordOf dest + (k % segmentWords - cellOf dest) = k := by omega
      exact hk (heq ▸ hw _ (by omega))
    rw [if_pos hs, hsame _ hc, word, entry, hs, hi]
  · rw [if_neg hs]
    rfl

theorem copySlice {dest src : Word} {n : Nat} (h : t.copySlice dest src n = .ok t')
    (hw : ∀ j < n, W (wordOf dest + j)) : Outside W t t' := by
  unfold Trie.copySlice at h
  split at h
  next =>
    split at h
    next =>
      cases Except.ok.inj h
      exact refl W _
    next hi =>
      cases Except.ok.inj h
      refine setTable hi (Table.len_clear ..) (fun c hc => ?_) hw
      rw [Table.get_clear, if_neg hc]
  next =>
    split at h
    next => simp at h
    next i t₁ hi =>
      cases Except.ok.inj h
      refine (install hi).trans
        (setTable (by rw [tableOf_install hi, if_pos rfl]) (Table.len_copyFrom ..) ?_ hw)
      intro c hc
      rw [Table.get_copyFrom, if_neg hc]

theorem copyMetadata {dest src len : Word}
    (hw : ∀ j < len.toNat / 8, W (wordOf dest + j)) :
    Outside W t (t.copyMetadata dest src len).2 := by
  unfold Trie.copyMetadata
  simp only
  split
  next => exact refl W t
  next =>
    split
    next => exact refl W t
    next =>
      split
      next => exact refl W t
      next hfit =>
        split
        next =>
          split
          next => exact refl W t
          next hc => exact copySlice hc hw
        next =>
          have hout : Outside W t (t.copyWords dest src (len.toNat / 8)).2 :=
            copyWords (Nat.lt_of_not_le hfit) hw
          split
          next hc => exact (congrArg Prod.snd hc) ▸ hout
          next hc => exact (congrArg Prod.snd hc) ▸ hout

end Outside

end PointerGuard.Trie
