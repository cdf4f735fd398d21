import PointerGuard.Proofs.Trie.Requests

namespace PointerGuard.Trie

variable {host : Host} {mode : Mode} {t t' : Trie mode} {s i : Nat}

/-- The segments that have a table. -/
def installed (t : Trie mode) : Finset Nat :=
  (Finset.range t.primary.len).filter fun s => (t.tableOf s).isSome

/-- Every table of the list belongs to one segment and has a cell for each of its words. -/
structure Directory (t : Trie mode) : Prop extends t.Sound where
  count : t.installed.card = t.tables.size
  full : ∀ i < t.tables.size, (t.tableAt i).len = segmentWords

theorem lt_of_tableOf (h : t.tableOf s = some i) : s < t.primary.len := by
  unfold tableOf at h
  split at h
  next hs => exact hs.1
  next => simp at h

theorem mem_installed : s ∈ t.installed ↔ (t.tableOf s).isSome := by
  rw [installed, Finset.mem_filter, Finset.mem_range, and_iff_right_iff_imp]
  intro h
  obtain ⟨i, hi⟩ := Option.isSome_iff_exists.mp h
  exact lt_of_tableOf hi

theorem lt_of_mem_installed (h : s ∈ t.installed) : s < t.primary.len :=
  Finset.mem_range.mp (Finset.mem_filter.mp h).1

theorem isInstalled_iff {addr : Word} : t.isInstalled addr = true ↔ segmentOf addr ∈ t.installed :=
  mem_installed.symm

theorem installed_install (h : t.install s = .ok (i, t')) : t'.installed = insert s t.installed := by
  ext s'
  rw [Finset.mem_insert, mem_installed, mem_installed, tableOf_install h]
  by_cases heq : s' = s
  · simp [heq]
  · simp [heq]

theorem notMem_installed (h : t.tableOf s = none) : s ∉ t.installed := by
  rw [mem_installed, h]
  simp

theorem installed_create {primaryEntries : Nat} {policy : InstallPolicy}
    (h : Trie.create host primaryEntries policy = .ok t) : t.installed = ∅ := by
  cases create_eq_ok h
  rw [Finset.eq_empty_iff_forall_notMem]
  intro s
  exact notMem_installed (by simp [tableOf])

theorem directory_create {primaryEntries : Nat} {policy : InstallPolicy}
    (h : Trie.create host primaryEntries policy = .ok t) : t.Directory := by
  refine ⟨sound_create h, ?_, ?_⟩
  · rw [installed_create h, Finset.card_empty]
    cases create_eq_ok h
    rfl
  · cases create_eq_ok h
    intro i hi
    simp at hi

theorem Directory.install (ht : t.Directory) (h : t.install s = .ok (i, t')) : t'.Directory := by
  refine ⟨ht.toSound.install h, ?_, ?_⟩
  · rcases install_eq_ok h with ⟨_, rfl⟩ | ⟨hnone, _, _, hnew⟩
    · exact ht.count
    · rw [installed_install h, Finset.card_insert_of_notMem (notMem_installed hnone), ht.count, hnew,
        Array.size_push]
  · intro j hj
    by_cases hold : j < t.tables.size
    · rw [tableAt_install h hold]
      exact ht.full j hold
    · rcases install_eq_ok h with ⟨_, rfl⟩ | ⟨_, _, _, rfl⟩
      · exact absurd hj hold
      · rw [Array.size_push] at hj
        have htop : j = t.tables.size := by omega
        simp [tableAt, Array.getD_eq_getD_getElem?, htop]

theorem Directory.setTable {table : Table Metadata} (ht : t.Directory)
    (hlen : table.len = (t.tableAt i).len) : (t.setTable i table).Directory := by
  have hsize : (t.setTable i table).tables.size = t.tables.size := Array.size_setIfInBounds
  refine ⟨ht.toSound.setTable i table, ?_, ?_⟩
  · rw [hsize]
    exact ht.count
  · intro j hj
    rw [hsize] at hj
    by_cases hij : i = j
    · subst hij
      have hfull := ht.full i hj
      simpa [tableAt, Trie.setTable, Array.getD_eq_getD_getElem?, hj] using hlen.trans hfull
    · have hfull := ht.full j hj
      simpa [tableAt, Trie.setTable, Array.getD_eq_getD_getElem?, hij] using hfull

namespace Grown

theorem directory (h : Grown t t') (ht : t.Directory) : t'.Directory := by
  induction h with
  | refl => exact ht
  | install _ hi ih => exact ih.install hi
  | setTable _ _ hlen ih => exact ih.setTable hlen

theorem len (h : Grown t t') : t'.primary.len = t.primary.len := by
  induction h with
  | refl => rfl
  | install _ hi ih => exact (size_install hi).1.trans ih
  | setTable _ _ _ ih => exact ih

theorem size_le (h : Grown t t') : t.tables.size ≤ t'.tables.size := by
  induction h with
  | refl => exact Nat.le_refl _
  | install _ hi ih =>
    refine ih.trans ?_
    rcases install_eq_ok hi with ⟨_, rfl⟩ | ⟨_, _, _, rfl⟩
    · exact Nat.le_refl _
    · rw [Array.size_push]
      exact Nat.le_succ _
  | setTable _ _ _ ih =>
    rw [Trie.setTable, Array.size_setIfInBounds]
    exact ih

end Grown

theorem mem_neighbours_iff {near : Nat} (hreach : near < t.primary.len) :
    s ∈ t.neighbours near ↔ s < t.primary.len ∧ s ≤ near + 1 ∧ near ≤ s + 1 := by
  have hbelow : s ∈ (if near = 0 then [] else [near - 1]) ↔ near ≠ 0 ∧ s = near - 1 := by
    split <;> simp [*]
  have habove : s ∈ (if near + 1 < t.primary.len then [near + 1] else []) ↔
      near + 1 < t.primary.len ∧ s = near + 1 := by
    split <;> simp [*]
  rw [neighbours, List.cons_append, List.mem_cons, List.mem_append, hbelow, habove]
  omega

/-- No segment outside of `S` has a table, and there are numbers for the tables of all of `S`, which
the primary table, of length `reach`, reaches. -/
structure Supplied (reach : Nat) (S : Finset Nat) (t : Trie mode) : Prop extends t.Directory where
  len : t.primary.len = reach
  below : ∀ s ∈ S, s < reach
  within : t.installed ⊆ S
  enough : S.card ≤ tableLimit

theorem segmentOf_wordAt_mem {S : Finset Nat} {dest : Word} {n : Nat} (hfit : lastWord dest n < 2 ^ 64)
    (hs : ∀ j < n, (wordOf dest + j) / segmentWords ∈ S) :
    ∀ j < n, segmentOf (wordAt dest j) ∈ S := by
  intro j hj
  rw [lastWord] at hfit
  rw [segmentOf_eq, wordOf_wordAt (by omega)]
  exact hs j hj

namespace Supplied

variable {reach : Nat} {S : Finset Nat} {addr dest src len : Word} {n : Nat}

theorem of_create {primaryEntries : Nat} {policy : InstallPolicy}
    (h : Trie.create host primaryEntries policy = .ok t) (below : ∀ s ∈ S, s < primaryEntries)
    (enough : S.card ≤ tableLimit) : t.Supplied primaryEntries S := by
  refine ⟨directory_create h, ?_, below, ?_, enough⟩
  · cases create_eq_ok h
    rfl
  · rw [installed_create h]
    exact Finset.empty_subset S

/-- Every segment of `S` has a table or gets one. -/
theorem install (ht : t.Supplied reach S) (hs : s ∈ S) :
    ∃ i t', t.install s = .ok (i, t') ∧ t'.Supplied reach S := by
  have hroom : t.tableOf s = none → t.tables.size < tableLimit := by
    intro hnone
    have hproper : t.installed ⊂ S :=
      Finset.ssubset_iff_subset_ne.mpr ⟨ht.within, fun heq => notMem_installed hnone (heq ▸ hs)⟩
    have hcard := Finset.card_lt_card hproper
    have henough := ht.enough
    rw [ht.count] at hcard
    omega
  obtain ⟨i, t', hi⟩ : ∃ i t', t.install s = .ok (i, t') := by
    cases hi : t.tableOf s with
    | some i => exact ⟨i, t, by rw [Trie.install, hi]⟩
    | none => exact install_succeeds (ht.len ▸ ht.below s hs) (hroom hi)
  refine ⟨i, t', hi, ht.toDirectory.install hi, ?_, ht.below, ?_, ht.enough⟩
  · rw [(size_install hi).1, ht.len]
  · rw [installed_install hi]
    exact Finset.insert_subset hs ht.within

theorem setTable {table : Table Metadata} (ht : t.Supplied reach S)
    (hlen : table.len = (t.tableAt i).len) : (t.setTable i table).Supplied reach S :=
  ⟨ht.toDirectory.setTable hlen, ht.len, ht.below, ht.within, ht.enough⟩

theorem store (ht : t.Supplied reach S) (hs : segmentOf addr ∈ S) (e : Metadata) :
    ∃ t', t.store addr e = .ok t' ∧ t'.Supplied reach S := by
  obtain ⟨i, t₁, hi, ht₁⟩ := ht.install hs
  rw [Trie.store, hi]
  exact ⟨_, rfl, ht₁.setTable (Table.len_set ..)⟩

theorem copyWord (ht : t.Supplied reach S) (hs : segmentOf dest ∈ S) (src : Word) :
    ∃ t', t.copyWord dest src = .ok t' ∧ t'.Supplied reach S := by
  unfold Trie.copyWord
  split
  next => exact ⟨t, rfl, ht⟩
  next => exact ht.store hs _

theorem copyWords (ht : t.Supplied reach S) (src : Word)
    (hs : ∀ j < n, segmentOf (wordAt dest j) ∈ S) :
    (t.copyWords dest src n).1 = .ok () ∧ (t.copyWords dest src n).2.Supplied reach S :=
  copyWords_of_steps (P := fun _ t => t.Supplied reach S)
    (fun j hj _ _ ht => ht.copyWord (hs j hj) (wordAt src j)) ht

theorem copySlice (ht : t.Supplied reach S) (src : Word) (n : Nat) (hs : segmentOf dest ∈ S) :
    ∃ t', t.copySlice dest src n = .ok t' ∧ t'.Supplied reach S := by
  obtain ⟨i, t₁, hi, ht₁⟩ := ht.install hs
  unfold Trie.copySlice
  cases t.tableOf (segmentOf src) with
  | none =>
    cases t.tableOf (segmentOf dest) with
    | none => exact ⟨t, rfl, ht⟩
    | some j => exact ⟨_, rfl, ht.setTable (Table.len_clear ..)⟩
  | some j =>
    simp only [hi]
    exact ⟨_, rfl, ht₁.setTable (Table.len_copyFrom ..)⟩

/-- A copy between ranges of words succeeds if the segments of its destination are in `S`. -/
theorem copyMetadata (ht : t.Supplied reach S)
    (hs : ∀ j < len.toNat / 8, (wordOf dest + j) / segmentWords ∈ S) :
    ((movedWords src len = 0 ∨ lastWord src (movedWords src len) < 2 ^ 64 ∧
        lastWord dest (movedWords src len) < 2 ^ 64) →
      (t.copyMetadata dest src len).1 = .ok (movedWords src len)) ∧
    (t.copyMetadata dest src len).2.Supplied reach S := by
  unfold Trie.copyMetadata
  simp only
  split
  next hz => exact ⟨fun _ => by rw [movedWords_eq_zero hz], ht⟩
  next hz =>
    obtain ⟨hsrc, hwords⟩ := not_or.mp hz
    have hn : movedWords src len = len.toNat / 8 := if_pos (not_not.mp hsrc)
    rw [hn]
    split
    next hfit => exact ⟨fun h => absurd (h.resolve_left hwords).1 (Nat.not_lt.mpr hfit), ht⟩
    next =>
      split
      next hfit => exact ⟨fun h => absurd (h.resolve_left hwords).2 (Nat.not_lt.mpr hfit), ht⟩
      next hfit =>
        have hin := segmentOf_wordAt_mem (Nat.lt_of_not_le hfit) hs
        split
        next =>
          have hfirst : segmentOf dest ∈ S := by
            rw [segmentOf_eq]
            exact hs 0 (Nat.pos_of_ne_zero hwords)
          obtain ⟨t', hc, ht'⟩ := ht.copySlice src (len.toNat / 8) hfirst
          rw [hc]
          exact ⟨fun _ => rfl, ht'⟩
        next =>
          obtain ⟨hok, ht'⟩ := ht.copyWords src hin
          split
          next hc =>
            rw [hc] at hok
            cases hok
          next hc =>
            rw [hc] at ht'
            exact ⟨fun _ => rfl, ht'⟩

theorem installAll {segments : List Nat} (ht : t.Supplied reach S) (hs : ∀ s ∈ segments, s ∈ S) :
    (t.installAll segments).1 = .ok () ∧ (t.installAll segments).2.Supplied reach S := by
  induction segments generalizing t with
  | nil => exact ⟨rfl, ht⟩
  | cons segment segments ih =>
    obtain ⟨i, t₁, hi, ht₁⟩ := ht.install (hs segment (List.mem_cons_self ..))
    rw [Trie.installAll, hi]
    exact ih ht₁ fun s hm => hs s (List.mem_cons_of_mem _ hm)

theorem preallocate (ht : t.Supplied reach S) (hreach : segmentOf addr < reach)
    (hs : ∀ s < reach, s ≤ segmentOf addr + 1 → segmentOf addr ≤ s + 1 → s ∈ S) :
    (t.preallocate addr).1 = .ok () ∧ (t.preallocate addr).2.Supplied reach S := by
  unfold Trie.preallocate
  cases t.policy with
  | lazy => exact ⟨rfl, ht⟩
  | eager =>
    have hfound : ¬t.primary.len ≤ segmentOf addr := Nat.not_le.mpr (ht.len ▸ hreach)
    simp only [if_neg hfound]
    refine ht.installAll fun s hm => ?_
    obtain ⟨hlt, hbelow, habove⟩ := (mem_neighbours_iff (ht.len ▸ hreach)).mp hm
    exact hs s (ht.len ▸ hlt) hbelow habove

theorem preallocateRange {start : Word} (ht : t.Supplied reach S)
    (hs : len ≠ 0 → lastSegment start len < reach ∧
      ∀ s, segmentOf start ≤ s → s ≤ lastSegment start len → s ∈ S) :
    (t.preallocateRange start len).1 = .ok () ∧
      (t.preallocateRange start len).2.Supplied reach S := by
  unfold Trie.preallocateRange
  cases t.policy with
  | lazy => exact ⟨rfl, ht⟩
  | eager =>
    by_cases hlen : len = 0
    · simp only [if_pos hlen]
      exact ⟨trivial, ht⟩
    · obtain ⟨hreach, hmem⟩ := hs hlen
      have hfound : ¬t.primary.len ≤ lastSegment start len := Nat.not_le.mpr (ht.len ▸ hreach)
      simp only [if_neg hlen, if_neg hfound]
      refine ht.installAll fun s hm => ?_
      obtain ⟨hlo, hhi⟩ := List.mem_range'_1.mp hm
      exact hmem s hlo (by omega)

end Supplied

end PointerGuard.Trie
