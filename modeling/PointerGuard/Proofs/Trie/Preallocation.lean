import PointerGuard.Proofs.Trie.Paths

namespace PointerGuard.Trie

variable {host : Host}
variable {mode : Mode} {t t' : Trie mode} {s i : Nat} {addr start len : Word} {segments : List Nat}
  {S : Finset Nat}

/-- The segments from the one of `start` to the one in which `[start, start + len)` ends. -/
def rangeSegments (start len : Word) : Finset Nat :=
  Finset.Icc (segmentOf start) (lastSegment start len)

/-- Of the segments below `reach`, the one of an address and those next to it. -/
def nearSegments (reach : Nat) (addr : Word) : Finset Nat :=
  (Finset.range reach).filter fun s => s ≤ segmentOf addr + 1 ∧ segmentOf addr ≤ s + 1

theorem lastSegment_eq (start : Word) (hlen : len ≠ 0) :
    lastSegment start len = min (start.toNat + len.toNat - 1) (2 ^ 64 - 1) / 2 ^ 25 := by
  have hpos : len.toNat ≠ 0 := fun h => hlen (UInt64.toNat_inj.mp h)
  rw [Nat.add_sub_assoc (Nat.one_le_iff_ne_zero.mpr hpos)]
  rfl

/-- A range ends in its last segment, and meets every segment between its first and its last. -/
theorem mem_rangeSegments_iff (hlen : len ≠ 0) : s ∈ rangeSegments start len ↔
    ∃ a : Word, start ≤ a ∧ a.toNat < start.toNat + len.toNat ∧ segmentOf a = s := by
  have hpos : len.toNat ≠ 0 := fun h => hlen (UInt64.toNat_inj.mp h)
  have hfirst : segmentOf start = start.toNat / 33554432 := rfl
  have hlast := lastSegment_eq start hlen
  have hstart := start.toNat_lt
  rw [rangeSegments, Finset.mem_Icc]
  constructor
  · rintro ⟨hlo, hhi⟩
    have hword : max start.toNat (s * 33554432) < 2 ^ 64 := by omega
    have ha : (UInt64.ofNat (max start.toNat (s * 33554432))).toNat
        = max start.toNat (s * 33554432) := toNat_ofNat_of_lt hword
    refine ⟨.ofNat (max start.toNat (s * 33554432)), UInt64.le_iff_toNat_le.mpr ?_, ?_, ?_⟩
    · omega
    · omega
    · show (UInt64.ofNat (max start.toNat (s * 33554432))).toNat / 33554432 = s
      omega
  · rintro ⟨a, hle, hlt, rfl⟩
    have hstarts := UInt64.le_iff_toNat_le.mp hle
    have hword := a.toNat_lt
    have hseg : segmentOf a = a.toNat / 33554432 := rfl
    omega

/-- There are numbers for the tables of the segments of `S` that have none. -/
def RoomFor (t : Trie mode) (S : Finset Nat) : Prop :=
  t.tables.size + (S \ t.installed).card ≤ tableLimit

/-- There are, if the slots of the primary table are not more than the numbers. -/
theorem Directory.roomFor (ht : t.Directory) (hslots : t.primary.len ≤ tableLimit)
    (hS : ∀ s ∈ S, s < t.primary.len) : t.RoomFor S := by
  have hwithin : t.installed ∪ S ⊆ Finset.range t.primary.len :=
    Finset.union_subset (Finset.filter_subset ..) fun s hs => Finset.mem_range.mpr (hS s hs)
  have hcard := Finset.card_le_card hwithin
  rw [← Finset.union_sdiff_self_eq_union, Finset.card_union_of_disjoint Finset.disjoint_sdiff,
    ht.count, Finset.card_range] at hcard
  exact hcard.trans hslots

/-- What an installation takes from the numbers is what it takes from the missing tables. -/
theorem roomFor_install (h : t.install s = .ok (i, t')) : t'.RoomFor S ↔ t.RoomFor (insert s S) := by
  unfold RoomFor
  rcases install_eq_ok h with ⟨hsome, rfl⟩ | ⟨hnone, _, _, hnew⟩
  · rw [Finset.insert_sdiff_of_mem _ (mem_installed.mpr (Option.isSome_iff_exists.mpr ⟨i, hsome⟩))]
  · have hmissing : insert s S \ t.installed = insert s (S \ t'.installed) := by
      ext s'
      rw [installed_install h]
      simp only [Finset.mem_sdiff, Finset.mem_insert]
      have hs := notMem_installed hnone
      by_cases heq : s' = s
      · simp [heq, hs]
      · simp [heq]
    have hinstalled : s ∉ S \ t'.installed := fun hs => (Finset.mem_sdiff.mp hs).2 <| by
      rw [installed_install h]
      exact Finset.mem_insert_self ..
    have hsize : t'.tables.size = t.tables.size + 1 := by rw [hnew, Array.size_push]
    rw [hmissing, Finset.card_insert_of_notMem hinstalled, hsize]
    omega

theorem RoomFor.mono {S' : Finset Nat} (h : t.RoomFor S') (hS : S ⊆ S') : t.RoomFor S := by
  have hcard := Finset.card_le_card (Finset.sdiff_subset_sdiff hS (Finset.Subset.refl t.installed))
  unfold RoomFor at h ⊢
  omega

/-- What there is room for after some installations there was room for before. -/
theorem Grown.roomFor (h : Grown t t') (hroom : t'.RoomFor S) : t.RoomFor S := by
  induction h with
  | refl => exact hroom
  | install _ hi ih =>
    have hbefore := (roomFor_install hi).mp hroom
    exact ih (hbefore.mono (Finset.subset_insert _ _))
  | @setTable t₁ s i table _ _ _ ih =>
    refine ih ?_
    rwa [RoomFor, Trie.setTable, Array.size_setIfInBounds] at hroom

theorem installed_installAll (h : (t.installAll segments).1 = .ok ()) :
    (t.installAll segments).2.installed = t.installed ∪ segments.toFinset := by
  induction segments generalizing t with
  | nil => rw [installAll, List.toFinset_nil, Finset.union_empty]
  | cons segment segments ih =>
    unfold installAll at h ⊢
    split at h
    next => cases h
    next hi =>
      rw [ih h, installed_install hi, List.toFinset_cons, Finset.insert_union,
        Finset.union_insert]

theorem installed_installAll_subset (t : Trie mode) (segments : List Nat) :
    (t.installAll segments).2.installed ⊆ t.installed ∪ segments.toFinset := by
  induction segments generalizing t with
  | nil => exact Finset.subset_union_left
  | cons segment segments ih =>
    rw [installAll]
    split
    next => exact Finset.subset_union_left
    next t₁ hi =>
      refine (ih t₁).trans (subset_of_eq ?_)
      rw [installed_install hi, List.toFinset_cons, Finset.insert_union, Finset.union_insert]

theorem installAll_of_installed (h : ∀ s ∈ segments, s ∈ t.installed) :
    t.installAll segments = (.ok (), t) := by
  induction segments with
  | nil => rfl
  | cons segment segments ih =>
    have hmem := h segment (List.mem_cons_self ..)
    obtain ⟨i, hi⟩ := Option.isSome_iff_exists.mp (mem_installed.mp hmem)
    rw [installAll, install, hi]
    exact ih fun s hs => h s (List.mem_cons_of_mem _ hs)

theorem installAll_again (h : (t.installAll segments).1 = .ok ()) :
    (t.installAll segments).2.installAll segments = (.ok (), (t.installAll segments).2) := by
  refine installAll_of_installed fun s hs => ?_
  rw [installed_installAll h]
  exact Finset.mem_union_right _ (List.mem_toFinset.mpr hs)

/-- Within reach it is the numbers that decide. -/
theorem installAll_outcome (hlimit : t.tables.size ≤ tableLimit)
    (hreach : ∀ s ∈ segments, s < t.primary.len) :
    t.RoomFor segments.toFinset ∧ (t.installAll segments).1 = .ok () ∨
      ¬t.RoomFor segments.toFinset ∧
        (t.installAll segments).1 = .error (.exhausted .secondaryTable) := by
  induction segments generalizing t with
  | nil => exact Or.inl ⟨by simpa [RoomFor] using hlimit, rfl⟩
  | cons segment segments ih =>
    rw [installAll, List.toFinset_cons]
    cases hi : t.install segment with
    | error v =>
      obtain ⟨hnone, ⟨hout, _⟩ | ⟨_, hfull, rfl⟩⟩ := install_eq_error hi
      · exact absurd (hreach segment (List.mem_cons_self ..)) (Nat.not_lt.mpr hout)
      · have hmissing : 0 < (insert segment segments.toFinset \ t.installed).card :=
          Finset.card_pos.mpr ⟨segment, Finset.mem_sdiff.mpr
            ⟨Finset.mem_insert_self .., notMem_installed hnone⟩⟩
        refine Or.inr ⟨fun hroom => ?_, rfl⟩
        rw [RoomFor] at hroom
        omega
    | ok placed =>
      obtain ⟨i, t₁⟩ := placed
      have hgrown : Grown t t₁ := (Grown.refl t).install hi
      rw [← roomFor_install hi]
      exact ih (hgrown.size_le_limit hlimit) fun s hs =>
        hgrown.len ▸ hreach s (List.mem_cons_of_mem _ hs)

/-- A request installs the tables of `S` if `S` is within reach and there are numbers for them. Out
of reach it is refused with `v` and installs none. Made again, it changes nothing. -/
structure Installs (t : Trie mode) (request : Trie mode → Except Violation Unit × Trie mode)
    (inside : Prop) (v : Violation) (S : Finset Nat) : Prop where
  succeeds : (request t).1 = .ok () ↔ inside ∧ t.RoomFor S
  outside : ¬inside → request t = (.error v, t)
  exhausted : inside → ¬t.RoomFor S → (request t).1 = .error (.exhausted .secondaryTable)
  installed : (request t).1 = .ok () → (request t).2.installed = t.installed ∪ S
  within : (request t).2.installed ⊆ t.installed ∪ S
  again : (request t).1 = .ok () → request (request t).2 = (.ok (), (request t).2)

/-- A request that is refused for another reason than the numbers changes nothing. -/
theorem Installs.unchanged {request : Trie mode → Except Violation Unit × Trie mode} {inside : Prop}
    {v w : Violation} (h : t.Installs request inside v S) (hw : (request t).1 = .error w)
    (hnumbers : w ≠ .exhausted .secondaryTable ∨ t.RoomFor S) : (request t).2 = t := by
  have hout : ¬inside := by
    intro hin
    by_cases hroom : t.RoomFor S
    · cases hw.symm.trans (h.succeeds.mpr ⟨hin, hroom⟩)
    · have hfull := hw.symm.trans (h.exhausted hin hroom)
      exact hnumbers.elim (fun hne => hne (Except.error.inj hfull)) hroom
  rw [h.outside hout]

theorem installs_of_installAll {request : Trie mode → Except Violation Unit × Trie mode}
    {inside : Prop} {v : Violation} (segments : List Nat) (hlimit : t.tables.size ≤ tableLimit)
    (hinside : inside → ∀ t', Grown t t' → request t' = t'.installAll segments)
    (houtside : ¬inside → request t = (.error v, t))
    (hreach : inside → ∀ s ∈ segments, s < t.primary.len)
    (hS : inside → segments.toFinset = S) : t.Installs request inside v S := by
  by_cases hin : inside
  · obtain rfl := hS hin
    have hall := hinside hin t (.refl t)
    have houtcome := installAll_outcome hlimit (hreach hin)
    have hgrown : Grown t (t.installAll segments).2 :=
      (Outside.installAll (W := fun _ => True) segments).grown
    constructor
    case succeeds =>
      rw [hall, and_iff_right hin]
      rcases houtcome with ⟨hroom, hok⟩ | ⟨hfull, herror⟩
      · exact iff_of_true hok hroom
      · exact iff_of_false (fun hok => by cases herror.symm.trans hok) hfull
    case outside => exact fun hout => absurd hin hout
    case exhausted =>
      intro _ hfull
      rw [hall]
      exact (houtcome.resolve_left fun h => hfull h.1).2
    case installed =>
      rw [hall]
      exact installed_installAll
    case within =>
      rw [hall]
      exact installed_installAll_subset t segments
    case again =>
      rw [hall, hinside hin _ hgrown]
      exact installAll_again
  · have herror := houtside hin
    have hno : (request t).1 ≠ .ok () := by
      rw [herror]
      simp
    constructor
    case succeeds => exact iff_of_false hno fun h => hin h.1
    case outside => exact fun _ => herror
    case exhausted => exact fun h => absurd h hin
    case installed => exact fun hok => absurd hok hno
    case within =>
      rw [herror]
      exact Finset.subset_union_left
    case again => exact fun hok => absurd hok hno

theorem preallocate_installs (hp : t.policy = .eager) (hlimit : t.tables.size ≤ tableLimit)
    (addr : Word) :
    t.Installs (·.preallocate addr) (segmentOf addr < t.primary.len) (.untrackableAddress addr)
      (nearSegments t.primary.len addr) := by
  refine installs_of_installAll (t.neighbours (segmentOf addr)) hlimit
    (fun hin t' hgrown => ?_) (fun hout => ?_) (fun hin s hs => ?_) fun hin => ?_
  · simp only [preallocate, hgrown.policy, hp, neighbours, hgrown.len, if_neg (Nat.not_le.mpr hin)]
  · simp only [preallocate, hp, if_pos (Nat.le_of_not_lt hout)]
  · exact ((mem_neighbours_iff hin).mp hs).1
  · ext s
    rw [List.mem_toFinset, mem_neighbours_iff hin, nearSegments, Finset.mem_filter, Finset.mem_range]

theorem preallocateRange_installs (hp : t.policy = .eager) (hlimit : t.tables.size ≤ tableLimit)
    (start : Word) (hlen : len ≠ 0) :
    t.Installs (·.preallocateRange start len) (lastSegment start len < t.primary.len)
      (.untrackableAddress (.ofNat (lastSegment start len * segmentBytes)))
      (rangeSegments start len) := by
  refine installs_of_installAll
    (List.range' (segmentOf start) (lastSegment start len + 1 - segmentOf start)) hlimit
    (fun hin t' hgrown => ?_) (fun hout => ?_) (fun hin s hs => ?_) fun hin => ?_
  · simp only [preallocateRange, hgrown.policy, hp, hgrown.len, if_neg hlen,
      if_neg (Nat.not_le.mpr hin)]
  · simp only [preallocateRange, hp, if_neg hlen, if_pos (Nat.le_of_not_lt hout)]
  · have hs := List.mem_range'_1.mp hs
    omega
  · ext s
    rw [List.mem_toFinset, List.mem_range'_1, rangeSegments, Finset.mem_Icc]
    omega

/-- Under the eager policy, a request within reach installs the segments that it asks for, and no
others. -/
theorem eager_preallocation_installs_exactly {primaryEntries : Nat}
    (hc : Trie.create host primaryEntries .eager = .ok t) (rs : List Request) :
    let before := t.after rs
    (∀ start len, len ≠ 0 →
      let last := min (start.toNat + len.toNat - 1) (2 ^ 64 - 1) / 2 ^ 25
      before.Installs (·.preallocateRange start len) (last < primaryEntries)
        (.untrackableAddress (.ofNat (last * 2 ^ 25))) (rangeSegments start len) ∧
      (∀ s, s ∈ rangeSegments start len ↔
        ∃ a : Word, start ≤ a ∧ a.toNat < start.toNat + len.toNat ∧ segmentOf a = s) ∧
      ((before.preallocateRange start len).1 = .ok () →
        ∀ a, start ≤ a → a.toNat < start.toNat + len.toNat →
          (before.step (.preallocateRange start len)).isInstalled a = true)) ∧
    (∀ addr, before.Installs (·.preallocate addr) (segmentOf addr < primaryEntries)
      (.untrackableAddress addr) (nearSegments primaryEntries addr)) ∧
    (∀ start len v, (before.preallocateRange start len).1 = .error v →
      v ≠ .exhausted .secondaryTable ∨ primaryEntries ≤ tableLimit →
      before.step (.preallocateRange start len) = before) ∧
    (∀ addr v, (before.preallocate addr).1 = .error v →
      v ≠ .exhausted .secondaryTable ∨ primaryEntries ≤ tableLimit →
      before.step (.preallocate addr) = before) ∧
    (primaryEntries ≤ tableLimit → ∀ S : Finset Nat, (∀ s ∈ S, s < primaryEntries) →
      before.RoomFor S) := by
  intro before
  have hgrown := grown_after t rs
  have hcreate := create_eq_ok hc
  have hlen : before.primary.len = primaryEntries := by rw [hgrown.len, hcreate]
  have hpolicy : before.policy = .eager := by rw [hgrown.policy, hcreate]
  have hlimit : before.tables.size ≤ tableLimit :=
    hgrown.size_le_limit (by rw [hcreate]; exact Nat.zero_le _)
  have hroom : primaryEntries ≤ tableLimit → ∀ S : Finset Nat, (∀ s ∈ S, s < primaryEntries) →
      before.RoomFor S := fun hslots S hS =>
    (hgrown.directory (directory_create hc)).roomFor (hlen ▸ hslots) fun s hs => hlen ▸ hS s hs
  have hrange (start : Word) {len : Word} (hne : len ≠ 0) :=
    preallocateRange_installs hpolicy hlimit start hne
  have haddress (addr : Word) := preallocate_installs hpolicy hlimit addr
  refine ⟨fun start len hne => ?range, fun addr => hlen ▸ haddress addr,
    fun start len v hv hnumbers => ?rangeRefused, fun addr v hv hnumbers => ?addressRefused, hroom⟩
  case range =>
    refine ⟨?_, fun s => mem_rangeSegments_iff hne, fun hok a hle hlt => ?_⟩
    · have hinstalls := hrange start hne
      rw [hlen, lastSegment_eq start hne] at hinstalls
      exact hinstalls
    · rw [isInstalled_iff, step, (hrange start hne).installed hok]
      exact Finset.mem_union_right _ ((mem_rangeSegments_iff hne).mpr ⟨a, hle, hlt, rfl⟩)
  case rangeRefused =>
    have hne : len ≠ 0 := by
      rintro rfl
      simp [preallocateRange, hpolicy] at hv
    by_cases hin : lastSegment start len < before.primary.len
    · refine (hrange start hne).unchanged hv (hnumbers.imp_right fun hslots => hroom hslots _ ?_)
      intro s hs
      have hs := Finset.mem_Icc.mp hs
      omega
    · rw [step, (hrange start hne).outside hin]
  case addressRefused =>
    refine (haddress addr).unchanged hv (hnumbers.imp_right fun hslots => hroom hslots _ ?_)
    intro s hs
    exact hlen ▸ Finset.mem_range.mp (Finset.mem_filter.mp hs).1

/-- The range begins with the last byte of one segment and ends with the first of the last. -/
theorem eager_preallocation_installs_exactly_three :
    ∃ t : Trie .combined, Trie.create .standard 4 .eager = .ok t ∧
      let before := t.after [.store 0x4000000 ⟨1, 2, 3, 4⟩]
      ∃ t', before.preallocateRange 0x3ffffff 0x2000002 = (.ok (), t') ∧
        t'.installed = before.installed ∪ {1, 2, 3} ∧
        t'.preallocateRange 0x3ffffff 0x2000002 = (.ok (), t') ∧
        before.preallocate 0x8000000 = (.error (.untrackableAddress 0x8000000), before) := by
  obtain ⟨t, hc⟩ : ∃ t : Trie .combined, Trie.create .standard 4 .eager = .ok t := ⟨_, rfl⟩
  obtain ⟨hrange, haddress, _, _, hroom⟩ :=
    eager_preallocation_installs_exactly hc [.store 0x4000000 ⟨1, 2, 3, 4⟩]
  have hsegments : rangeSegments 0x3ffffff 0x2000002 = {1, 2, 3} := by decide
  obtain ⟨hinstalls, _⟩ := hrange 0x3ffffff 0x2000002 (by decide)
  rw [hsegments] at hinstalls
  have hok := hinstalls.succeeds.mpr ⟨by decide, hroom (by decide) _ (by decide)⟩
  exact ⟨t, hc, _, Prod.ext hok rfl, hinstalls.installed hok, hinstalls.again hok,
    (haddress 0x8000000).outside (by decide)⟩

end PointerGuard.Trie
