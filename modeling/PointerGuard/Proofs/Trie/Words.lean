import Mathlib
import PointerGuard.Proofs.Creation

namespace PointerGuard

variable {host : Host}

/-- The number of the word that holds a byte address. -/
def wordOf (addr : Word) : Nat := addr.toNat / 8

namespace Trie

variable {mode : Mode} {t t' : Trie mode} {s i : Nat}

/-- The entry at a place of a segment. -/
def entry (t : Trie mode) (segment cell : Nat) : Metadata :=
  match t.tableOf segment with
  | some i => (t.tableAt i).get cell
  | none => .unknown

/-- The entry of a word. -/
def word (t : Trie mode) (k : Nat) : Metadata := t.entry (k / segmentWords) (k % segmentWords)

theorem segmentOf_eq (addr : Word) : segmentOf addr = wordOf addr / segmentWords := by
  rw [wordOf, Nat.div_div_eq_div_mul]
  rfl

theorem load_eq_word (t : Trie mode) (addr : Word) : t.load addr = t.word (wordOf addr) := by
  rw [word, ← segmentOf_eq]
  rfl

/-- Installed segments have tables of their own. -/
structure Sound (t : Trie mode) : Prop where
  lt : ∀ {s i}, t.tableOf s = some i → i < t.tables.size
  apart : ∀ {s s' i}, t.tableOf s = some i → t.tableOf s' = some i → s = s'

theorem create_eq_ok {primaryEntries : Nat} {policy : InstallPolicy}
    (h : Trie.create host primaryEntries policy = .ok t) :
    t = { host, policy, primary := { len := primaryEntries } } := by
  unfold create at h
  split at h
  next primary hr =>
    obtain ⟨rfl, _⟩ := Table.reserve_eq_ok hr
    exact (Except.ok.inj h).symm
  next => simp at h

theorem sound_create {primaryEntries : Nat} {policy : InstallPolicy}
    (h : Trie.create host primaryEntries policy = .ok t) : t.Sound := by
  cases create_eq_ok h
  have hnone : ∀ s, (⟨host, policy, { len := primaryEntries }, #[]⟩ : Trie mode).tableOf s = none := by
    intro s
    simp [tableOf]
  constructor <;> intros <;> simp_all

theorem install_eq_ok (h : t.install s = .ok (i, t')) :
    t.tableOf s = some i ∧ t' = t ∨
      t.tableOf s = none ∧ s < t.primary.len ∧ i = t.tables.size ∧
        t' = { t with
          primary := t.primary.set s (t.tables.size + 1)
          tables := t.tables.push { len := segmentWords } } := by
  unfold install at h
  split at h
  next hi =>
    cases Except.ok.inj h
    exact Or.inl ⟨hi, rfl⟩
  next hi =>
    split at h
    next => simp at h
    next hs =>
      split at h
      next => simp at h
      next =>
        split at h
        next => simp at h
        next hr =>
          obtain ⟨rfl, _⟩ := Table.reserve_eq_ok hr
          cases Except.ok.inj h
          exact Or.inr ⟨hi, by omega, rfl, rfl⟩

theorem tableOf_install (h : t.install s = .ok (i, t')) (s' : Nat) :
    t'.tableOf s' = if s' = s then some i else t.tableOf s' := by
  rcases install_eq_ok h with ⟨hi, rfl⟩ | ⟨_, hs, rfl, rfl⟩
  · split
    next heq => rw [heq, hi]
    next => rfl
  · unfold tableOf
    simp only [Table.len_set, Table.get_set]
    by_cases heq : s' = s
    · simp [heq, hs]
    · simp [heq]

theorem tableAt_install (h : t.install s = .ok (i, t')) {j : Nat} (hj : j < t.tables.size) :
    t'.tableAt j = t.tableAt j := by
  rcases install_eq_ok h with ⟨_, rfl⟩ | ⟨_, _, _, rfl⟩
  · rfl
  · simp [tableAt, Array.getD_eq_getD_getElem?, Array.getElem?_push, Nat.ne_of_lt hj]

theorem Sound.install (ht : t.Sound) (h : t.install s = .ok (i, t')) : t'.Sound := by
  rcases install_eq_ok h with ⟨_, rfl⟩ | ⟨_, _, hi, ht'⟩
  · exact ht
  · have hsize : t'.tables.size = t.tables.size + 1 := by simp [ht']
    have hbelow : ∀ {s' j}, s' ≠ s → t'.tableOf s' = some j → j < t.tables.size := by
      intro s' j hne hj
      rw [tableOf_install h, if_neg hne] at hj
      exact ht.lt hj
    have htop : ∀ {j}, t'.tableOf s = some j → j = t.tables.size := by
      intro j hj
      rw [tableOf_install h, if_pos rfl] at hj
      rw [← hi, Option.some.inj hj]
    constructor
    · intro s' j hj
      by_cases hne : s' = s
      · have := htop (hne ▸ hj)
        omega
      · have := hbelow hne hj
        omega
    · intro s₁ s₂ j h₁ h₂
      by_cases hne₁ : s₁ = s <;> by_cases hne₂ : s₂ = s
      · rw [hne₁, hne₂]
      · have := htop (hne₁ ▸ h₁)
        have := hbelow hne₂ h₂
        omega
      · have := hbelow hne₁ h₁
        have := htop (hne₂ ▸ h₂)
        omega
      · rw [tableOf_install h, if_neg hne₁] at h₁
        rw [tableOf_install h, if_neg hne₂] at h₂
        exact ht.apart h₁ h₂

theorem entry_install (ht : t.Sound) (h : t.install s = .ok (i, t')) (s' cell : Nat) :
    t'.entry s' cell = t.entry s' cell := by
  unfold entry
  rw [tableOf_install h]
  by_cases heq : s' = s
  · subst heq
    simp only [↓reduceIte]
    rcases install_eq_ok h with ⟨hi, rfl⟩ | ⟨hi, _, rfl, rfl⟩
    · rw [hi]
    · simp only [hi, tableAt, Array.getD_eq_getD_getElem?, Array.getElem?_push]
      exact Table.get_empty ..
  · simp only [heq, ↓reduceIte]
    cases hj : t.tableOf s' with
    | none => rfl
    | some j => simp only [tableAt_install h (ht.lt hj)]

theorem Sound.setTable (ht : t.Sound) (i : Nat) (table : Table Metadata) :
    (t.setTable i table).Sound where
  lt hs := by
    rw [Trie.setTable, Array.size_setIfInBounds]
    exact ht.lt hs
  apart := ht.apart

theorem entry_setTable (ht : t.Sound) (hi : t.tableOf s = some i) (table : Table Metadata)
    (s' cell : Nat) :
    (t.setTable i table).entry s' cell = if s' = s then table.get cell else t.entry s' cell := by
  have hlt := ht.lt hi
  show (match t.tableOf s' with
    | some j => ((t.setTable i table).tableAt j).get cell
    | none => .unknown) = _
  by_cases heq : s' = s
  · subst heq
    simp [hi, tableAt, setTable, Array.getD_eq_getD_getElem?, hlt]
  · rw [if_neg heq, entry]
    cases hj : t.tableOf s' with
    | none => rfl
    | some j =>
      have hne : i ≠ j := by
        rintro rfl
        exact heq (ht.apart hj hi)
      simp [tableAt, setTable, Array.getD_eq_getD_getElem?, hne]

theorem word_of_entry (h : ∀ s cell, t'.entry s cell = t.entry s cell) (k : Nat) :
    t'.word k = t.word k :=
  h _ _

theorem eq_of_div_mod {k j : Nat} (hd : k / segmentWords = j / segmentWords)
    (hm : k % segmentWords = j % segmentWords) : k = j := by
  rw [← Nat.div_add_mod k segmentWords, hd, hm, Nat.div_add_mod]

theorem word_setTable_set (ht : t.Sound) {addr : Word} (hi : t.tableOf (segmentOf addr) = some i)
    (e : Metadata) (k : Nat) :
    (t.setTable i ((t.tableAt i).set (cellOf addr) e)).word k =
      if k = wordOf addr then e else t.word k := by
  rw [word, entry_setTable ht hi, Table.get_set, segmentOf_eq]
  by_cases hk : k = wordOf addr
  · rw [if_pos hk, if_pos (by rw [hk]), if_pos (by rw [hk]; rfl)]
  · rw [if_neg hk]
    by_cases hs : k / segmentWords = wordOf addr / segmentWords
    · have hc : k % segmentWords ≠ cellOf addr := fun hc => hk (eq_of_div_mod hs hc)
      rw [if_pos hs, if_neg hc, word, entry, hs, ← segmentOf_eq, hi]
    · rw [if_neg hs]
      rfl

theorem store_eq_ok {addr : Word} {e : Metadata} (h : t.store addr e = .ok t') :
    ∃ i t₁, t.install (segmentOf addr) = .ok (i, t₁) ∧
      t' = t₁.setTable i ((t₁.tableAt i).set (cellOf addr) (mode.keep e)) := by
  unfold store at h
  split at h
  next => simp at h
  next i t₁ hi => exact ⟨i, t₁, hi, (Except.ok.inj h).symm⟩

theorem Sound.store {addr : Word} {e : Metadata} (ht : t.Sound) (h : t.store addr e = .ok t') :
    t'.Sound := by
  obtain ⟨i, t₁, hi, rfl⟩ := store_eq_ok h
  exact (ht.install hi).setTable _ _

/-- A store changes the entry of its word. -/
theorem word_store {addr : Word} {e : Metadata} (ht : t.Sound) (h : t.store addr e = .ok t')
    (k : Nat) : t'.word k = if k = wordOf addr then mode.keep e else t.word k := by
  obtain ⟨i, t₁, hi, rfl⟩ := store_eq_ok h
  have hs : t₁.tableOf (segmentOf addr) = some i := by rw [tableOf_install hi, if_pos rfl]
  rw [word_setTable_set (ht.install hi) hs, word_of_entry (entry_install ht hi)]

theorem load_store {addr : Word} {e : Metadata} (ht : t.Sound) (h : t.store addr e = .ok t')
    (a : Word) : t'.load a = if wordOf a = wordOf addr then mode.keep e else t.load a := by
  rw [load_eq_word, load_eq_word, word_store ht h]

/-- `t'` comes from `t` by installing segments and by writing to cells of installed tables. -/
inductive Grown : Trie mode → Trie mode → Prop
  | refl (t : Trie mode) : Grown t t
  | install {t t₁ t₂ : Trie mode} {s i : Nat} (h : Grown t t₁)
      (hi : t₁.install s = .ok (i, t₂)) : Grown t t₂
  | setTable {t t₁ : Trie mode} {s i : Nat} {table : Table Metadata} (h : Grown t t₁)
      (hi : t₁.tableOf s = some i) (hlen : table.len = (t₁.tableAt i).len) :
      Grown t (t₁.setTable i table)

namespace Grown

variable {t₁ t₂ t₃ : Trie mode}

theorem trans (h : Grown t₁ t₂) (h' : Grown t₂ t₃) : Grown t₁ t₃ := by
  induction h' with
  | refl => exact h
  | install _ hi ih => exact ih.install hi
  | setTable _ hi hlen ih => exact ih.setTable hi hlen

theorem sound (h : Grown t t') (ht : t.Sound) : t'.Sound := by
  induction h with
  | refl => exact ht
  | install _ hi ih => exact ih.install hi
  | setTable _ _ _ ih => exact ih.setTable _ _

theorem policy (h : Grown t t') : t'.policy = t.policy := by
  induction h with
  | refl => rfl
  | install _ hi ih =>
    rw [← ih]
    rcases install_eq_ok hi with ⟨_, rfl⟩ | ⟨_, _, _, rfl⟩ <;> rfl
  | setTable _ _ _ ih => exact ih

theorem store {addr : Word} {e : Metadata} (h : t.store addr e = .ok t') : Grown t t' := by
  obtain ⟨i, t₁, hi, rfl⟩ := store_eq_ok h
  exact ((refl t).install hi).setTable (by rw [tableOf_install hi, if_pos rfl]) rfl

end Grown

/-- `t'` is grown from `t` and agrees with it outside of the words in `W`. -/
structure Outside (W : Nat → Prop) (t t' : Trie mode) : Prop where
  grown : t.Grown t'
  same : t.Sound → ∀ k, ¬W k → t'.word k = t.word k

namespace Outside

variable {W V : Nat → Prop} {t₁ t₂ t₃ : Trie mode}

theorem sound (h : Outside W t t') (ht : t.Sound) : t'.Sound := h.grown.sound ht

theorem policy (h : Outside W t t') : t'.policy = t.policy := h.grown.policy

theorem refl (W : Nat → Prop) (t : Trie mode) : Outside W t t :=
  ⟨.refl t, fun _ _ _ => rfl⟩

theorem trans (h : Outside W t₁ t₂) (h' : Outside W t₂ t₃) : Outside W t₁ t₃ :=
  ⟨h.grown.trans h'.grown, fun ht k hk => (h'.same (h.sound ht) k hk).trans (h.same ht k hk)⟩

theorem mono (hWV : ∀ k, W k → V k) (h : Outside W t₁ t₂) : Outside V t₁ t₂ :=
  ⟨h.grown, fun ht k hk => h.same ht k fun hw => hk (hWV k hw)⟩

theorem install (h : t.install s = .ok (i, t')) : Outside W t t' :=
  ⟨(Grown.refl t).install h, fun ht k _ => word_of_entry (entry_install ht h) k⟩

theorem store {addr : Word} {e : Metadata} (h : t.store addr e = .ok t') (hw : W (wordOf addr)) :
    Outside W t t' := by
  refine ⟨.store h, fun ht k hk => ?_⟩
  have hne : k ≠ wordOf addr := by
    rintro rfl
    exact hk hw
  rw [word_store ht h, if_neg hne]

theorem installAll (segments : List Nat) : Outside W t (t.installAll segments).2 := by
  induction segments generalizing t with
  | nil => exact refl W t
  | cons segment segments ih =>
    rw [Trie.installAll]
    split
    next => exact refl W t
    next hi => exact (install hi).trans ih

theorem preallocate (addr : Word) : Outside W t (t.preallocate addr).2 := by
  unfold Trie.preallocate
  split
  next => exact refl W t
  next =>
    split
    next => exact refl W t
    next => exact installAll _

theorem preallocateRange (start len : Word) : Outside W t (t.preallocateRange start len).2 := by
  unfold Trie.preallocateRange
  split
  next => exact refl W t
  next =>
    split
    next => exact refl W t
    next =>
      split
      next => exact refl W t
      next => exact installAll _

end Outside

end Trie

end PointerGuard
