import PointerGuard.Proofs.Trie.Failures
import PointerGuard.Proofs.Trie.Projection

namespace PointerGuard.Trie

variable {host : Host}
variable {mode : Mode} {t t' : Trie mode} {s i n : Nat} {dest src len : Word} {S : Finset Nat}

theorem tableOf_eq_some_iff :
    t.tableOf s = some i ↔ s < t.primary.len ∧ t.primary.get s = i + 1 := by
  unfold tableOf
  split
  next hs =>
    rw [Option.some_inj, and_iff_right hs.1]
    omega
  next hs => exact iff_of_false (by simp) fun h => hs ⟨h.1, by omega⟩

theorem mem_installed_iff_slot : s ∈ t.installed ↔ s < t.primary.len ∧ t.primary.get s ≠ 0 := by
  rw [mem_installed, Option.isSome_iff_exists]
  simp only [tableOf_eq_some_iff]
  constructor
  · rintro ⟨i, hs, hslot⟩
    exact ⟨hs, by omega⟩
  · rintro ⟨hs, hslot⟩
    exact ⟨t.primary.get s - 1, hs, by omega⟩

theorem tableOf_of_mem_installed (h : s ∈ t.installed) :
    t.tableOf s = some (t.primary.get s - 1) ∧ 0 < t.primary.get s := by
  obtain ⟨hs, hslot⟩ := mem_installed_iff_slot.mp h
  exact ⟨tableOf_eq_some_iff.mpr ⟨hs, by omega⟩, Nat.pos_of_ne_zero hslot⟩

/-- As many segments have tables as there are tables, and none shares its table, so every table is
some segment's. -/
theorem Directory.bijOn_slots (ht : t.Directory) :
    Set.BijOn t.primary.get {s | s < t.primary.len ∧ t.primary.get s ≠ 0}
      (Set.Icc 1 t.tables.size) := by
  have hslots : {s | s < t.primary.len ∧ t.primary.get s ≠ 0} = (t.installed : Set Nat) := by
    ext s
    exact mem_installed_iff_slot.symm
  have hmaps : Set.MapsTo t.primary.get t.installed (Finset.Icc 1 t.tables.size) := by
    intro s hs
    obtain ⟨htable, hpos⟩ := tableOf_of_mem_installed hs
    have hlt := ht.lt htable
    rw [Finset.coe_Icc, Set.mem_Icc]
    omega
  have hinj : Set.InjOn t.primary.get t.installed := by
    intro s hs s' hs' heq
    have htable := (tableOf_of_mem_installed hs).1
    rw [heq] at htable
    exact ht.apart htable (tableOf_of_mem_installed hs').1
  have hcard : (Finset.Icc 1 t.tables.size).card ≤ t.installed.card := by
    rw [Nat.card_Icc, ht.count]
    omega
  have hsurj := Finset.surjOn_of_injOn_of_card_le _ hmaps hinj hcard
  rw [Finset.coe_Icc] at hmaps hsurj
  rw [hslots]
  exact ⟨hmaps, hinj, hsurj⟩

theorem Grown.tableOf (h : Grown t t') (hs : t.tableOf s = some i) : t'.tableOf s = some i := by
  induction h with
  | refl => exact hs
  | @install t₁ t₂ s' j _ hi ih =>
    rw [tableOf_install hi]
    split
    next heq =>
      have hkept := ih
      rw [heq] at hkept
      rcases install_eq_ok hi with ⟨hj, _⟩ | ⟨hnone, _⟩
      · exact hj.symm.trans hkept
      · cases hnone.symm.trans hkept
    next => exact ih
  | setTable _ _ _ ih => exact ih

theorem installed_copyWord (h : t.copyWord dest src = .ok t') :
    t'.installed ⊆ insert (segmentOf dest) t.installed := by
  unfold copyWord at h
  split at h
  next =>
    cases Except.ok.inj h
    exact Finset.subset_insert _ _
  next => rw [installed_store h]

theorem installed_copyUp (h : t.installed ⊆ S)
    (hs : ∀ j, i ≤ j → j < i + n → segmentOf (wordAt dest j) ∈ S) :
    (t.copyUp dest src i n).2.installed ⊆ S := by
  induction n generalizing t i with
  | zero => exact h
  | succ n ih =>
    unfold copyUp
    split
    next => exact h
    next t₁ hc =>
      have hfirst : t₁.installed ⊆ S := (installed_copyWord hc).trans
        (Finset.insert_subset (hs i (Nat.le_refl i) (by omega)) h)
      exact ih hfirst fun j hij hj => hs j (by omega) (by omega)

theorem installed_copyDown (h : t.installed ⊆ S) (hs : ∀ j < n, segmentOf (wordAt dest j) ∈ S) :
    (t.copyDown dest src n).2.installed ⊆ S := by
  induction n generalizing t with
  | zero => exact h
  | succ n ih =>
    unfold copyDown
    split
    next => exact h
    next t₁ hc =>
      have hlast : t₁.installed ⊆ S := (installed_copyWord hc).trans
        (Finset.insert_subset (hs n (Nat.lt_succ_self n)) h)
      exact ih hlast fun j hj => hs j (by omega)

theorem installed_copyWords (h : t.installed ⊆ S) (hs : ∀ j < n, segmentOf (wordAt dest j) ∈ S) :
    (t.copyWords dest src n).2.installed ⊆ S := by
  unfold copyWords
  split
  next => exact installed_copyDown h hs
  next => exact installed_copyUp h fun j _ hj => hs j (by omega)

/-- Whether it fails or not, a copy installs no segment but those of its destination's words. -/
theorem installed_copyMetadata (h : t.installed ⊆ S)
    (hs : lastWord dest (len.toNat / 8) < 2 ^ 64 →
      ∀ j < len.toNat / 8, segmentOf (wordAt dest j) ∈ S) :
    (t.copyMetadata dest src len).2.installed ⊆ S := by
  unfold copyMetadata
  simp only
  split
  next => exact h
  next hz =>
    split
    next => exact h
    next =>
      split
      next => exact h
      next hfit =>
        have hwords := hs (Nat.lt_of_not_le hfit)
        split
        next =>
          split
          next => exact h
          next t₁ hc =>
            have hpos : 0 < len.toNat / 8 := Nat.pos_of_ne_zero (not_or.mp hz).2
            have hfirst : segmentOf dest ∈ S := by
              have hword := hwords 0 hpos
              rwa [wordAt, Nat.mul_zero, show dest + .ofNat 0 = dest from UInt64.add_zero dest]
                at hword
            show t₁.installed ⊆ S
            rw [installed_copySlice hc]
            split
            next => exact Finset.insert_subset hfirst h
            next => exact h
        next =>
          have hcopied : (t.copyWords dest src (len.toNat / 8)).2.installed ⊆ S :=
            installed_copyWords h hwords
          split
          next hc => exact congrArg Prod.snd hc ▸ hcopied
          next hc => exact congrArg Prod.snd hc ▸ hcopied

theorem mem_destination_of_installed (hnew : s ∈ (t.copyMetadata dest src len).2.installed)
    (hold : s ∉ t.installed) :
    ∃ a : Word, dest ≤ a ∧ a.toNat < dest.toNat + 8 * (len.toNat / 8) ∧ segmentOf a = s := by
  by_cases hfit : lastWord dest (len.toNat / 8) < 2 ^ 64
  · let touched := (Finset.range (len.toNat / 8)).image fun j => segmentOf (wordAt dest j)
    have hwithin : (t.copyMetadata dest src len).2.installed ⊆ t.installed ∪ touched :=
      installed_copyMetadata Finset.subset_union_left fun _ j hj =>
        Finset.mem_union_right _ (Finset.mem_image_of_mem _ (Finset.mem_range.mpr hj))
    have hmem : s ∈ touched := (Finset.mem_union.mp (hwithin hnew)).resolve_left hold
    obtain ⟨j, hj, hseg⟩ := Finset.mem_image.mp hmem
    rw [Finset.mem_range] at hj
    rw [lastWord] at hfit
    have haddr : (wordAt dest j).toNat = dest.toNat + 8 * j := toNat_wordAt (by omega)
    refine ⟨wordAt dest j, UInt64.le_iff_toNat_le.mpr ?_, ?_, hseg⟩ <;> omega
  · exact absurd (installed_copyMetadata (S := t.installed) (Finset.Subset.refl _)
      (fun h => absurd h hfit) hnew) hold

/-- The slots that are not zero number the installed tables, each of them once, and a segment keeps
its table. -/
theorem slots_number_tables {primaryEntries : Nat} {policy : InstallPolicy}
    (hc : Trie.create host primaryEntries policy = .ok t) (rs : List Request) :
    let u := t.after rs
    Set.BijOn u.primary.get {s | s < primaryEntries ∧ u.primary.get s ≠ 0}
      (Set.Icc 1 u.tables.size) ∧
    (∀ s i, u.tableOf s = some i → i < u.tables.size) ∧
    (∀ s s' i, u.tableOf s = some i → u.tableOf s' = some i → s = s') ∧
    (∀ rs' s i, u.tableOf s = some i → (u.after rs').tableOf s = some i) ∧
    ∀ dest src len s, s ∉ u.installed → s ∈ (u.copyMetadata dest src len).2.installed →
      ∃ a : Word, dest ≤ a ∧ a.toNat < dest.toNat + 8 * (len.toNat / 8) ∧ segmentOf a = s := by
  intro u
  have hgrown := grown_after t rs
  have hdirectory : u.Directory := hgrown.directory (directory_create hc)
  have hlen : u.primary.len = primaryEntries := by rw [hgrown.len, create_eq_ok hc]
  refine ⟨hlen ▸ hdirectory.bijOn_slots, fun _ _ => hdirectory.lt, fun _ _ _ => hdirectory.apart,
    fun rs' _ _ hs => (grown_after u rs').tableOf hs,
    fun _ _ _ _ hold hnew => mem_destination_of_installed hnew hold⟩

/-- The last segment gets its table first, the two lowest get theirs next, and a copy into the
remaining one reads beyond the primary table. -/
theorem slots_number_tables_of_last_segment :
    ∃ t : Trie .combined, Trie.create .standard 4 .eager = .ok t ∧
      let u := t.after [.store 0x7fffff8 ⟨1, 2, 3, 4⟩, .preallocate 0x1000,
        .copyMetadata 0x5fffff8 0x7fffff8 16]
      Set.BijOn u.primary.get {s | s < 4 ∧ u.primary.get s ≠ 0} (Set.Icc 1 4) ∧
      u.primary.get 3 = 1 ∧ u.primary.get 0 = 2 ∧ u.primary.get 1 = 3 ∧ u.primary.get 2 = 4 := by
  obtain ⟨t, hc, hsize, hslots⟩ : ∃ t : Trie .combined, Trie.create .standard 4 .eager = .ok t ∧
      let u := t.after [.store 0x7fffff8 ⟨1, 2, 3, 4⟩, .preallocate 0x1000,
        .copyMetadata 0x5fffff8 0x7fffff8 16]
      u.tables.size = 4 ∧
      u.primary.get 3 = 1 ∧ u.primary.get 0 = 2 ∧ u.primary.get 1 = 3 ∧ u.primary.get 2 = 4 :=
    ⟨_, rfl, rfl, rfl, rfl, rfl, rfl⟩
  obtain ⟨hnumbers, _⟩ := slots_number_tables hc [.store 0x7fffff8 ⟨1, 2, 3, 4⟩,
    .preallocate 0x1000, .copyMetadata 0x5fffff8 0x7fffff8 16]
  rw [hsize] at hnumbers
  exact ⟨t, hc, hnumbers, hslots⟩

end PointerGuard.Trie
