import PointerGuard.Proofs.Trie.Directory

namespace PointerGuard.Trie

variable {host : Host}
variable {mode wide : Mode} {f : Metadata → Metadata} {t t₁ : Trie mode} {u u₁ : Trie wide}
  {s i j n : Nat} {dest src len : Word}

/-- `t` shows what `f` leaves of the entries of `u`, and installs no segment that `u` does not. -/
structure Shows (f : Metadata → Metadata) (t : Trie mode) (u : Trie wide) : Prop where
  keep : ∀ e, f (wide.keep e) = mode.keep e
  trimmed : t.Trimmed
  wideTrimmed : u.Trimmed
  word : ∀ k, t.word k = f (u.word k)
  within : t.installed ⊆ u.installed
  len : t.primary.len = u.primary.len
  policy : t.policy = .eager → u.policy = .eager

theorem installed_setTable (t : Trie mode) (i : Nat) (table : Table Metadata) :
    (t.setTable i table).installed = t.installed :=
  rfl

theorem isInstalled_eq_false_iff {addr : Word} :
    t.isInstalled addr = false ↔ segmentOf addr ∉ t.installed := by
  rw [← isInstalled_iff, Bool.not_eq_true]

theorem installed_store {addr : Word} {e : Metadata} (h : t.store addr e = .ok t₁) :
    t₁.installed = insert (segmentOf addr) t.installed := by
  obtain ⟨i, t₂, hi, rfl⟩ := store_eq_ok h
  rw [installed_setTable]
  exact installed_install hi

theorem installed_copySlice (h : t.copySlice dest src n = .ok t₁) :
    t₁.installed = if t.isInstalled src then insert (segmentOf dest) t.installed
      else t.installed := by
  unfold copySlice at h
  rw [isInstalled]
  cases hsrc : t.tableOf (segmentOf src) with
  | none =>
    simp only [hsrc] at h
    split at h <;> cases Except.ok.inj h <;> rfl
  | some j =>
    simp only [hsrc] at h
    split at h
    next => simp at h
    next hi =>
      cases Except.ok.inj h
      rw [installed_setTable]
      exact installed_install hi

namespace Shows

theorem unknown (h : Shows f t u) : f .unknown = .unknown := by
  have hkeep := h.keep .unknown
  rwa [Mode.keep_unknown, Mode.keep_unknown] at hkeep

theorem lazy (h : Shows f t u) (hu : u.policy = .lazy) : t.policy = .lazy := by
  cases hp : t.policy with
  | lazy => rfl
  | eager =>
    rw [h.policy hp] at hu
    cases hu

theorem load (h : Shows f t u) (addr : Word) : t.load addr = f (u.load addr) := by
  rw [load_eq_word, load_eq_word]
  exact h.word _

theorem isInstalled (h : Shows f t u) {addr : Word} (hi : t.isInstalled addr = true) :
    u.isInstalled addr = true :=
  isInstalled_iff.mpr (h.within (isInstalled_iff.mp hi))

/-- What is left to show when both tries have grown. -/
theorem grow (h : Shows f t u) (ht : Outside (fun _ => True) t t₁)
    (hu : Outside (fun _ => True) u u₁) (htrim : t₁.Trimmed) (hutrim : u₁.Trimmed)
    (hword : ∀ k, t₁.word k = f (u₁.word k)) (hwithin : t₁.installed ⊆ u₁.installed) :
    Shows f t₁ u₁ where
  keep := h.keep
  trimmed := htrim
  wideTrimmed := hutrim
  word := hword
  within := hwithin
  len := by rw [ht.grown.len, hu.grown.len, h.len]
  policy := by
    rw [ht.policy, hu.policy]
    exact h.policy

theorem install (h : Shows f t u) (ht : t.install s = .ok (i, t₁)) (hu : u.install s = .ok (j, u₁)) :
    Shows f t₁ u₁ := by
  refine h.grow (.install ht) (.install hu) (h.trimmed.of_outside (.install ht))
    (h.wideTrimmed.of_outside (.install hu)) (fun k => ?_) ?_
  · rw [word_of_entry (entry_install h.trimmed.toSound ht),
      word_of_entry (entry_install h.wideTrimmed.toSound hu), h.word]
  · rw [installed_install ht, installed_install hu]
    exact Finset.insert_subset_insert s h.within

theorem install_wide (h : Shows f t u) (hu : u.install s = .ok (j, u₁)) : Shows f t u₁ := by
  refine h.grow (.refl _ t) (.install hu) h.trimmed (h.wideTrimmed.of_outside (.install hu))
    (fun k => ?_) ?_
  · rw [word_of_entry (entry_install h.wideTrimmed.toSound hu), h.word]
  · rw [installed_install hu]
    exact h.within.trans (Finset.subset_insert s _)

theorem store (h : Shows f t u) {addr : Word} {e e' : Metadata} (he : mode.keep e = f (wide.keep e'))
    (ht : t.store addr e = .ok t₁) (hu : u.store addr e' = .ok u₁) : Shows f t₁ u₁ := by
  refine h.grow (.store ht trivial) (.store hu trivial) (h.trimmed.store ht)
    (h.wideTrimmed.store hu) (fun k => ?_) ?_
  · rw [word_store h.trimmed.toSound ht, word_store h.wideTrimmed.toSound hu]
    split
    next => exact he
    next => exact h.word k
  · rw [installed_store ht, installed_store hu]
    exact Finset.insert_subset_insert _ h.within

/-- Where one trie skips an unknown entry and the other does not, the destination has no table in
the one, and so shows what the other writes there. -/
theorem copyWord (h : Shows f t u) (ht : t.copyWord dest src = .ok t₁)
    (hu : u.copyWord dest src = .ok u₁) : Shows f t₁ u₁ := by
  have hword : ∀ k, t₁.word k = f (u₁.word k) := by
    intro k
    rw [word_copyWord h.trimmed ht, word_copyWord h.wideTrimmed hu]
    split <;> exact h.word _
  have hwithin : t₁.installed ⊆ u₁.installed := by
    have hgrown : u.installed ⊆ u₁.installed := by
      unfold Trie.copyWord at hu
      split at hu
      next =>
        cases Except.ok.inj hu
        exact Finset.Subset.refl _
      next =>
        rw [installed_store hu]
        exact Finset.subset_insert _ _
    unfold Trie.copyWord at ht
    split at ht
    next =>
      cases Except.ok.inj ht
      exact h.within.trans hgrown
    next hkept =>
      rw [installed_store ht]
      refine Finset.insert_subset ?_ (h.within.trans hgrown)
      unfold Trie.copyWord at hu
      split at hu
      next hskip =>
        have hzero : t.load src = 0 := by
          rw [h.load, hskip.1]
          exact h.unknown
        have hin : segmentOf dest ∈ t.installed := by
          by_contra hout
          exact hkept ⟨hzero, isInstalled_eq_false_iff.mpr hout⟩
        exact hgrown (h.within hin)
      next =>
        rw [installed_store hu]
        exact Finset.mem_insert_self _ _
  exact h.grow (.copyWord ht trivial) (.copyWord hu trivial) (h.trimmed.copyWord ht)
    (h.wideTrimmed.copyWord hu) hword hwithin

theorem copyUp (h : Shows f t u) (ht : (t.copyUp dest src i n).1 = .ok ())
    (hu : (u.copyUp dest src i n).1 = .ok ()) :
    Shows f (t.copyUp dest src i n).2 (u.copyUp dest src i n).2 := by
  induction n generalizing t u i with
  | zero => exact h
  | succ n ih =>
    unfold Trie.copyUp at ht hu ⊢
    split at ht
    next => cases ht
    next hc =>
      split at hu
      next => cases hu
      next hc' =>
        exact ih (h.copyWord hc hc') ht hu

theorem copyDown (h : Shows f t u) (ht : (t.copyDown dest src n).1 = .ok ())
    (hu : (u.copyDown dest src n).1 = .ok ()) :
    Shows f (t.copyDown dest src n).2 (u.copyDown dest src n).2 := by
  induction n generalizing t u with
  | zero => exact h
  | succ n ih =>
    unfold Trie.copyDown at ht hu ⊢
    split at ht
    next => cases ht
    next hc =>
      split at hu
      next => cases hu
      next hc' =>
        exact ih (h.copyWord hc hc') ht hu

theorem copyWords (h : Shows f t u) (ht : (t.copyWords dest src n).1 = .ok ())
    (hu : (u.copyWords dest src n).1 = .ok ()) :
    Shows f (t.copyWords dest src n).2 (u.copyWords dest src n).2 := by
  unfold Trie.copyWords at ht hu ⊢
  split
  next hlt =>
    rw [if_pos hlt] at ht hu
    exact h.copyDown ht hu
  next hlt =>
    rw [if_neg hlt] at ht hu
    exact h.copyUp ht hu

theorem copySlice (h : Shows f t u) (hdest : InOneSegment dest n) (hsrc : InOneSegment src n)
    (ht : t.copySlice dest src n = .ok t₁) (hu : u.copySlice dest src n = .ok u₁) :
    Shows f t₁ u₁ := by
  have hmt := Moved.copySlice h.trimmed hdest hsrc ht
  have hmu := Moved.copySlice h.wideTrimmed hdest hsrc hu
  refine h.grow (.copySlice ht fun _ _ => trivial) (.copySlice hu fun _ _ => trivial) hmt.trimmed
    hmu.trimmed (fun k => ?_) ?_
  · by_cases hk : ∃ i < n, k = wordOf dest + i
    · obtain ⟨i, hi, rfl⟩ := hk
      rw [hmt.moved i (Nat.zero_le i) hi, hmu.moved i (Nat.zero_le i) hi, h.word]
    · have hout : ∀ i, 0 ≤ i → i < n → k ≠ wordOf dest + i := fun i _ hi heq => hk ⟨i, hi, heq⟩
      rw [hmt.same k hout, hmu.same k hout, h.word]
  · rw [installed_copySlice ht, installed_copySlice hu]
    by_cases hs : t.isInstalled src = true
    · rw [if_pos hs, if_pos (h.isInstalled hs)]
      exact Finset.insert_subset_insert _ h.within
    · rw [if_neg hs]
      split
      next => exact h.within.trans (Finset.subset_insert _ _)
      next => exact h.within

theorem installAll {segments : List Nat} (h : Shows f t u)
    (ht : (t.installAll segments).1 = .ok ()) (hu : (u.installAll segments).1 = .ok ()) :
    Shows f (t.installAll segments).2 (u.installAll segments).2 := by
  induction segments generalizing t u with
  | nil => exact h
  | cons segment segments ih =>
    unfold Trie.installAll at ht hu ⊢
    split at ht
    next => cases ht
    next hi =>
      split at hu
      next => cases hu
      next hj =>
        exact ih (h.install hi hj) ht hu

theorem installAll_wide (h : Shows f t u) (segments : List Nat) :
    Shows f t (u.installAll segments).2 := by
  induction segments generalizing u with
  | nil => exact h
  | cons segment segments ih =>
    rw [Trie.installAll]
    split
    next => exact h
    next hj => exact ih (h.install_wide hj)

theorem preallocate {addr : Word} (h : Shows f t u) (ht : (t.preallocate addr).1 = .ok ())
    (hu : (u.preallocate addr).1 = .ok ()) :
    Shows f (t.preallocate addr).2 (u.preallocate addr).2 := by
  unfold Trie.preallocate at ht hu ⊢
  cases hup : u.policy with
  | lazy => simpa only [h.lazy hup] using h
  | eager =>
    rw [h.len, show t.neighbours (segmentOf addr) = u.neighbours (segmentOf addr) by
      rw [neighbours, neighbours, h.len]] at ht ⊢
    simp only [hup] at hu ⊢
    by_cases hout : u.primary.len ≤ segmentOf addr
    · rw [if_pos hout] at hu
      cases hu
    · simp only [if_neg hout] at ht hu ⊢
      cases htp : t.policy with
      | lazy => exact h.installAll_wide _
      | eager =>
        simp only [htp] at ht
        exact h.installAll ht hu

theorem preallocateRange {start : Word} (h : Shows f t u)
    (ht : (t.preallocateRange start len).1 = .ok ())
    (hu : (u.preallocateRange start len).1 = .ok ()) :
    Shows f (t.preallocateRange start len).2 (u.preallocateRange start len).2 := by
  unfold Trie.preallocateRange at ht hu ⊢
  cases hup : u.policy with
  | lazy => simpa only [h.lazy hup] using h
  | eager =>
    rw [h.len] at ht ⊢
    simp only [hup] at hu ⊢
    by_cases hz : len = 0
    · simp only [if_pos hz]
      cases t.policy <;> exact h
    · simp only [if_neg hz] at ht hu ⊢
      by_cases hout : u.primary.len ≤ lastSegment start len
      · rw [if_pos hout] at hu
        cases hu
      · simp only [if_neg hout] at ht hu ⊢
        cases htp : t.policy with
        | lazy => exact h.installAll_wide _
        | eager =>
          simp only [htp] at ht
          exact h.installAll ht hu

end Shows

/-- `t` shows `u`, and there are tables in both for the segments of `S`. -/
structure Beside (f : Metadata → Metadata) (reach : Nat) (S : Finset Nat) (t : Trie mode)
    (u : Trie wide) : Prop extends Shows f t u where
  supplied : t.Supplied reach S
  wideSupplied : u.Supplied reach S

namespace Beside

variable {reach : Nat} {S : Finset Nat} {addr : Word}

theorem of_create {primaryEntries : Nat} {policy policy' : InstallPolicy}
    (ht : Trie.create host primaryEntries policy = .ok t)
    (hu : Trie.create host primaryEntries policy' = .ok u)
    (keep : ∀ e, f (wide.keep e) = mode.keep e) (hpolicy : policy = .eager → policy' = .eager)
    (below : ∀ s ∈ S, s < primaryEntries) (enough : S.card ≤ tableLimit) :
    Beside f primaryEntries S t u := by
  have hempty : ∀ k, t.word k = .unknown ∧ u.word k = .unknown := by
    intro k
    cases create_eq_ok ht
    cases create_eq_ok hu
    exact ⟨word_of_tableOf_none (by simp [tableOf]), word_of_tableOf_none (by simp [tableOf])⟩
  refine ⟨⟨keep, trimmed_create ht, trimmed_create hu, fun k => ?_, ?_, ?_, ?_⟩,
    .of_create ht below enough, .of_create hu below enough⟩
  · have hkeep := keep .unknown
    rw [Mode.keep_unknown, Mode.keep_unknown] at hkeep
    rw [(hempty k).1, (hempty k).2, hkeep]
  · rw [installed_create ht]
    exact Finset.empty_subset _
  · cases create_eq_ok ht
    cases create_eq_ok hu
    rfl
  · cases create_eq_ok ht
    cases create_eq_ok hu
    exact hpolicy

theorem store (h : Beside f reach S t u) {e e' : Metadata} (he : mode.keep e = f (wide.keep e'))
    (hs : segmentOf addr ∈ S) :
    ∃ t₁ u₁, t.store addr e = .ok t₁ ∧ u.store addr e' = .ok u₁ ∧ Beside f reach S t₁ u₁ := by
  obtain ⟨t₁, ht, hst⟩ := h.supplied.store hs e
  obtain ⟨u₁, hu, hsu⟩ := h.wideSupplied.store hs e'
  exact ⟨t₁, u₁, ht, hu, h.toShows.store he ht hu, hst, hsu⟩

theorem preallocate (h : Beside f reach S t u) (hreach : segmentOf addr < reach)
    (hs : ∀ s < reach, s ≤ segmentOf addr + 1 → segmentOf addr ≤ s + 1 → s ∈ S) :
    (t.preallocate addr).1 = .ok () ∧ (u.preallocate addr).1 = .ok () ∧
      Beside f reach S (t.preallocate addr).2 (u.preallocate addr).2 := by
  obtain ⟨ht, hst⟩ := h.supplied.preallocate hreach hs
  obtain ⟨hu, hsu⟩ := h.wideSupplied.preallocate hreach hs
  exact ⟨ht, hu, h.toShows.preallocate ht hu, hst, hsu⟩

theorem preallocateRange (h : Beside f reach S t u) {start : Word}
    (hs : len ≠ 0 → lastSegment start len < reach ∧
      ∀ s, segmentOf start ≤ s → s ≤ lastSegment start len → s ∈ S) :
    (t.preallocateRange start len).1 = .ok () ∧ (u.preallocateRange start len).1 = .ok () ∧
      Beside f reach S (t.preallocateRange start len).2 (u.preallocateRange start len).2 := by
  obtain ⟨ht, hst⟩ := h.supplied.preallocateRange hs
  obtain ⟨hu, hsu⟩ := h.wideSupplied.preallocateRange hs
  exact ⟨ht, hu, h.toShows.preallocateRange ht hu, hst, hsu⟩

theorem copyMetadata (h : Beside f reach S t u) (src : Word)
    (hs : ∀ j < len.toNat / 8, (wordOf dest + j) / segmentWords ∈ S) :
    (t.copyMetadata dest src len).1 = (u.copyMetadata dest src len).1 ∧
      Beside f reach S (t.copyMetadata dest src len).2 (u.copyMetadata dest src len).2 := by
  suffices hends : (t.copyMetadata dest src len).1 = (u.copyMetadata dest src len).1 ∧
      Shows f (t.copyMetadata dest src len).2 (u.copyMetadata dest src len).2 from
    ⟨hends.1, hends.2, (h.supplied.copyMetadata hs).2, (h.wideSupplied.copyMetadata hs).2⟩
  unfold Trie.copyMetadata
  simp only
  split
  next => exact ⟨rfl, h.toShows⟩
  next hz =>
    split
    next => exact ⟨rfl, h.toShows⟩
    next =>
      split
      next => exact ⟨rfl, h.toShows⟩
      next hfit =>
        split
        next hone =>
          have hfirst : segmentOf dest ∈ S := by
            rw [segmentOf_eq]
            exact hs 0 (Nat.pos_of_ne_zero (not_or.mp hz).2)
          obtain ⟨t₁, hc, _⟩ := h.supplied.copySlice src (len.toNat / 8) hfirst
          obtain ⟨u₁, hc', _⟩ := h.wideSupplied.copySlice src (len.toNat / 8) hfirst
          rw [hc, hc']
          exact ⟨rfl, h.copySlice hone.2 hone.1 hc hc'⟩
        next =>
          have hin := segmentOf_wordAt_mem (Nat.lt_of_not_le hfit) hs
          obtain ⟨hok, _⟩ := h.supplied.copyWords src hin
          obtain ⟨hok', _⟩ := h.wideSupplied.copyWords src hin
          have hshow := h.copyWords hok hok'
          split
          next hc =>
            rw [hc] at hok
            cases hok
          next hc =>
            split
            next hc' =>
              rw [hc'] at hok'
              cases hok'
            next hc' =>
              rw [hc, hc'] at hshow
              exact ⟨rfl, hshow⟩

end Beside

end PointerGuard.Trie
