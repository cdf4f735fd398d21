import PointerGuard.Proofs.Machine.Traps
import PointerGuard.Proofs.Trie.Directory

namespace PointerGuard.Trie

variable {host : Host}

open Checked

variable {mode : Mode} {t t' : Trie mode}

def tableOfOrTrap (t : Trie mode) (segment : Nat) : Checked (Option Nat) :=
  if segment < t.primary.len ∧ t.primary.get segment ≠ 0 then do
    let i ← subOrTrap (t.primary.get segment) 1
    .ok (some i)
  else .ok none

def isInstalledOrTrap (t : Trie mode) (addr : Word) : Checked Bool := do
  let i ← t.tableOfOrTrap (segmentOf addr)
  .ok i.isSome

def tableAtOrTrap (t : Trie mode) (i : Nat) : Checked (Table Metadata) :=
  demand (i < t.tables.size) .outOfRange (t.tableAt i)

/-- The place of a segment's table, which is installed if it is missing. A slot has 32 bits. -/
def installOrTrap (t : Trie mode) (segment : Nat) : Checked (Nat × Trie mode) := do
  match ← t.tableOfOrTrap segment with
  | some i => .ok (i, t)
  | none =>
    if t.primary.len ≤ segment then
      violation (.untrackableAddress (.ofNat (segment * segmentBytes)))
    else
      let slot ← addOrTrap t.tables.size 1
      if 1 <<< 32 ≤ slot then violation (.exhausted .secondaryTable)
      else
        match Table.reserve t.host .secondary segmentWords (8 * mode.fields) with
        | .error _ => violation (.exhausted .secondaryTable)
        | .ok (_, table) =>
          let primary ← t.primary.setOrTrap segment slot
          let i ← subOrTrap slot 1
          .ok (i, { t with primary, tables := t.tables.push table })

def loadOrTrap (t : Trie mode) (addr : Word) : Checked Metadata := do
  match ← t.tableOfOrTrap (segmentOf addr) with
  | some i =>
    let table ← t.tableAtOrTrap i
    table.getOrTrap (cellOf addr)
  | none => .ok .unknown

def storeOrTrap (t : Trie mode) (addr : Word) (e : Metadata) : Checked (Trie mode) := do
  let (i, t) ← (t.installOrTrap (segmentOf addr)).mapError (Stop.map (Violation.blame addr))
  let table ← t.tableAtOrTrap i
  let table ← table.setOrTrap (cellOf addr) (mode.keep e)
  .ok (t.setTable i table)

def installAllOrTrap (t : Trie mode) : List Nat → Checked (Except Violation Unit × Trie mode)
  | [] => .ok (.ok (), t)
  | segment :: segments => do
    match ← caught (t.installOrTrap segment) with
    | .error v => .ok (.error v, t)
    | .ok (_, t) => t.installAllOrTrap segments

/-- A segment, the one below it, and the one above it, as far as the primary table goes. -/
def neighboursOrTrap (t : Trie mode) (segment : Nat) : Checked (List Nat) := do
  let above ← addOrTrap segment 1
  .ok (segment :: (if segment = 0 then [] else [segment - 1]) ++
    if above < t.primary.len then [above] else [])

def preallocateOrTrap (t : Trie mode) (addr : Word) :
    Checked (Except Violation Unit × Trie mode) :=
  match t.policy with
  | .lazy => .ok (.ok (), t)
  | .eager =>
    if t.primary.len ≤ segmentOf addr then .ok (.error (.untrackableAddress addr), t)
    else do
      let segments ← t.neighboursOrTrap (segmentOf addr)
      t.installAllOrTrap segments

def lastSegmentOrTrap (start len : Word) : Checked Nat := do
  let less ← subOrTrap len.toNat 1
  .ok (min (start.toNat + less) (1 <<< 64 - 1) / segmentBytes)

def preallocateRangeOrTrap (t : Trie mode) (start len : Word) :
    Checked (Except Violation Unit × Trie mode) :=
  match t.policy with
  | .lazy => .ok (.ok (), t)
  | .eager =>
    if len = 0 then .ok (.ok (), t)
    else do
      let last ← lastSegmentOrTrap start len
      if t.primary.len ≤ last then
        .ok (.error (.untrackableAddress (.ofNat (last * segmentBytes))), t)
      else t.installAllOrTrap (List.range' (segmentOf start) (last + 1 - segmentOf start))

def wordAtOrTrap (addr : Word) (i : Nat) : Checked Word := do
  let offset ← mulOrTrap i 8
  let word ← addOrTrap addr.toNat offset
  .ok (.ofNat word)

def copyWordOrTrap (t : Trie mode) (dest src : Word) : Checked (Trie mode) := do
  let e ← t.loadOrTrap src
  let installed ← t.isInstalledOrTrap dest
  if e = 0 ∧ installed = false then .ok t else t.storeOrTrap dest e

def copyUpOrTrap (t : Trie mode) (dest src : Word) (i : Nat) :
    Nat → Checked (Except Violation Unit × Trie mode)
  | 0 => .ok (.ok (), t)
  | n + 1 => do
    let target ← wordAtOrTrap dest i
    let source ← wordAtOrTrap src i
    match ← caught (t.copyWordOrTrap target source) with
    | .error v => .ok (.error v, t)
    | .ok t => t.copyUpOrTrap dest src (i + 1) n

def copyDownOrTrap (t : Trie mode) (dest src : Word) :
    Nat → Checked (Except Violation Unit × Trie mode)
  | 0 => .ok (.ok (), t)
  | n + 1 => do
    let target ← wordAtOrTrap dest n
    let source ← wordAtOrTrap src n
    match ← caught (t.copyWordOrTrap target source) with
    | .error v => .ok (.error v, t)
    | .ok t => t.copyDownOrTrap dest src n

def copyWordsOrTrap (t : Trie mode) (dest src : Word) (n : Nat) :
    Checked (Except Violation Unit × Trie mode) :=
  if src < dest then t.copyDownOrTrap dest src n else t.copyUpOrTrap dest src 0 n

/-- Two tables of the list, one to read and one to write: the list is cut where the later of them
begins, and each is looked up in its part. -/
def pairOrTrap (t : Trie mode) (j i : Nat) : Checked (Table Metadata × Table Metadata) :=
  if j < i then do
    let cut ← demand (i ≤ t.tables.size) .outOfRange i
    let source ← demand (j < cut) .outOfRange (t.tableAt j)
    let target ← demand (0 < t.tables.size - cut) .outOfRange (t.tableAt cut)
    .ok (source, target)
  else do
    let cut ← demand (j ≤ t.tables.size) .outOfRange j
    let source ← demand (0 < t.tables.size - cut) .outOfRange (t.tableAt cut)
    let target ← demand (i < cut) .outOfRange (t.tableAt i)
    .ok (source, target)

/-- Copies `n` entries when each range lies inside one segment. -/
def copySliceOrTrap (t : Trie mode) (dest src : Word) (n : Nat) : Checked (Trie mode) := do
  let srcEnd ← addOrTrap (cellOf src) n
  match ← t.tableOfOrTrap (segmentOf src) with
  | none =>
    match ← t.tableOfOrTrap (segmentOf dest) with
    | none => .ok t
    | some i =>
      let table ← t.tableAtOrTrap i
      let destEnd ← addOrTrap (cellOf dest) n
      let table ← table.rangeOrTrap (cellOf dest) destEnd
      .ok (t.setTable i (table.clear (cellOf dest) n))
  | some j =>
    let (i, t) ← (t.installOrTrap (segmentOf dest)).mapError
      (Stop.map fun _ => .untrackableAddress dest)
    if j = i then
      let table ← t.tableAtOrTrap i
      let table ← table.rangeOrTrap (cellOf src) srcEnd
      let table ← demand (cellOf dest ≤ table.len - n) .outOfRange table
      .ok (t.setTable i (table.copyFrom table (cellOf dest) (cellOf src) n))
    else
      let (source, target) ← t.pairOrTrap j i
      let destEnd ← addOrTrap (cellOf dest) n
      let target ← target.rangeOrTrap (cellOf dest) destEnd
      let source ← source.rangeOrTrap (cellOf src) srcEnd
      .ok (t.setTable i (target.copyFrom source (cellOf dest) (cellOf src) n))

def copyMetadataOrTrap (t : Trie mode) (dest src len : Word) :
    Checked (Except Violation Nat × Trie mode) :=
  let n := len.toNat / 8
  if src.toNat % 8 ≠ 0 ∨ n = 0 then .ok (.ok 0, t)
  else do
    let less ← subOrTrap n 1
    let span ← mulOrTrap less 8
    if 1 <<< 64 ≤ src.toNat + span then .ok (.error (.untrackableAddress src), t)
    else if 1 <<< 64 ≤ dest.toNat + span then .ok (.error (.untrackableAddress dest), t)
    else if segmentOf src = (src.toNat + span) / segmentBytes ∧
        segmentOf dest = (dest.toNat + span) / segmentBytes then
      match ← caught (t.copySliceOrTrap dest src n) with
      | .error v => .ok (.error v, t)
      | .ok t => .ok (.ok n, t)
    else
      match ← t.copyWordsOrTrap dest src n with
      | (.error v, t) => .ok (.error v, t)
      | (.ok (), t) => .ok (.ok n, t)

/-- The primary table is a directory of the secondary ones, and lies in memory. -/
structure WellFormed (t : Trie mode) : Prop where
  directory : t.Directory
  room : t.primary.len * 4 < 1 <<< 64

theorem wellFormed_create {primaryEntries : Nat} {policy : InstallPolicy}
    (h : Trie.create host primaryEntries policy = .ok t) : t.WellFormed := by
  refine ⟨directory_create h, ?_⟩
  unfold create at h
  split at h
  next primary hr =>
    obtain ⟨rfl, _, hroom, _⟩ := Table.reserve_eq_ok hr
    cases Except.ok.inj h
    exact hroom
  next => cases h

theorem wordAtOrTrap_eq {addr : Word} {i : Nat} (h : addr.toNat + 8 * i < 1 <<< 64) :
    wordAtOrTrap addr i = .ok (wordAt addr i) := by
  rw [wordAtOrTrap, mulOrTrap_eq (by omega), ok_bind, addOrTrap_eq (by omega), ok_bind, wordAt,
    UInt64.ofNat_add, UInt64.ofNat_toNat, Nat.mul_comm]

theorem tableOfOrTrap_eq (t : Trie mode) (segment : Nat) :
    t.tableOfOrTrap segment = .ok (t.tableOf segment) := by
  unfold tableOfOrTrap tableOf
  split
  next h => rw [subOrTrap_eq (Nat.one_le_iff_ne_zero.mpr h.2), ok_bind]
  next => rfl

theorem isInstalledOrTrap_eq (t : Trie mode) (addr : Word) :
    t.isInstalledOrTrap addr = .ok (t.isInstalled addr) := by
  rw [isInstalledOrTrap, tableOfOrTrap_eq, ok_bind, isInstalled]

theorem tableAtOrTrap_eq {i : Nat} (h : i < t.tables.size) :
    t.tableAtOrTrap i = .ok (t.tableAt i) :=
  demand_eq h ..

theorem cellOf_lt (addr : Word) : cellOf addr < segmentWords :=
  Nat.mod_lt _ (by decide)

/-- A range of words in one segment ends within the segment's table. -/
theorem InOneSegment.cellOf_add_le {addr : Word} {n : Nat} (h : InOneSegment addr n) (hn : n ≠ 0) :
    cellOf addr + n ≤ segmentWords := by
  obtain ⟨_, hcell⟩ := h.place (i := n - 1) (by omega)
  have hlt := Nat.mod_lt (wordOf addr + (n - 1)) (show 0 < segmentWords by decide)
  omega

theorem pairOrTrap_eq {i j : Nat} (hj : j < t.tables.size) (hi : i < t.tables.size) (hne : j ≠ i) :
    t.pairOrTrap j i = .ok (t.tableAt j, t.tableAt i) := by
  unfold pairOrTrap
  split
  next hlt =>
    rw [demand_eq (by omega), ok_bind, demand_eq hlt, ok_bind, demand_eq (by omega), ok_bind]
  next =>
    rw [demand_eq (by omega), ok_bind, demand_eq (by omega), ok_bind, demand_eq (by omega), ok_bind]

namespace WellFormed

theorem grown (h : t.WellFormed) (hg : t.Grown t') : t'.WellFormed :=
  ⟨hg.directory h.directory, hg.len ▸ h.room⟩

theorem install (h : t.WellFormed) {segment i : Nat} (hi : t.install segment = .ok (i, t')) :
    t'.WellFormed ∧ i < t'.tables.size := by
  have ht' := h.grown ((Grown.refl t).install hi)
  refine ⟨ht', ht'.directory.lt (s := segment) ?_⟩
  rw [tableOf_install hi, if_pos rfl]

theorem store (h : t.WellFormed) {addr : Word} {e : Metadata} (hs : t.store addr e = .ok t') :
    t'.WellFormed :=
  h.grown (.store hs)

theorem preallocate (h : t.WellFormed) (addr : Word) : (t.preallocate addr).2.WellFormed :=
  h.grown (Outside.preallocate (W := fun _ => True) addr).grown

theorem preallocateRange (h : t.WellFormed) (start len : Word) :
    (t.preallocateRange start len).2.WellFormed :=
  h.grown (Outside.preallocateRange (W := fun _ => True) start len).grown

theorem copyWord (h : t.WellFormed) {dest src : Word} (hc : t.copyWord dest src = .ok t') :
    t'.WellFormed :=
  h.grown (Outside.copyWord (W := fun _ => True) hc trivial).grown

theorem copyMetadata (h : t.WellFormed) (dest src len : Word) :
    (t.copyMetadata dest src len).2.WellFormed :=
  h.grown (Outside.copyMetadata (W := fun _ => True) fun _ _ => trivial).grown

/-- There are no more tables than slots. -/
theorem size_le (h : t.WellFormed) : t.tables.size ≤ t.primary.len := by
  rw [← h.directory.count, ← Finset.card_range t.primary.len]
  exact Finset.card_le_card (Finset.filter_subset _ _)

/-- No slot of the primary table points beyond the list of tables. -/
theorem slot_le (h : t.WellFormed) {segment : Nat} (hs : segment < t.primary.len) :
    t.primary.get segment ≤ t.tables.size := by
  by_cases hz : t.primary.get segment = 0
  · omega
  · have hi : t.tableOf segment = some (t.primary.get segment - 1) := if_pos ⟨hs, hz⟩
    have hlt := h.directory.lt hi
    omega

theorem installOrTrap_eq (h : t.WellFormed) (segment : Nat) :
    t.installOrTrap segment = of (t.install segment) := by
  have hsize := h.size_le
  have hroom := h.room
  rw [installOrTrap, tableOfOrTrap_eq, ok_bind, Trie.install]
  cases t.tableOf segment with
  | some i => rfl
  | none =>
    simp only
    by_cases hreach : t.primary.len ≤ segment
    · rw [if_pos hreach, if_pos hreach]
      rfl
    · rw [if_neg hreach, if_neg hreach, addOrTrap_eq (by omega), ok_bind]
      by_cases hlimit : tableLimit ≤ t.tables.size
      · rw [if_pos hlimit, if_pos (by simp only [tableLimit] at hlimit; omega)]
        rfl
      · rw [if_neg hlimit, if_neg (by simp only [tableLimit] at hlimit; omega)]
        cases Table.reserve t.host .secondary segmentWords (8 * mode.fields) with
        | error r => rfl
        | ok reserved =>
          simp only
          rw [Table.setOrTrap_eq (by omega), ok_bind, subOrTrap_eq (Nat.le_add_left ..), ok_bind,
            Nat.add_sub_cancel, of_ok]

theorem loadOrTrap_eq (h : t.WellFormed) (addr : Word) : t.loadOrTrap addr = .ok (t.load addr) := by
  rw [loadOrTrap, tableOfOrTrap_eq, ok_bind, load]
  cases hi : t.tableOf (segmentOf addr) with
  | none => rfl
  | some i =>
    have hlt := h.directory.lt hi
    have hcell := (h.directory.full i hlt).symm ▸ cellOf_lt addr
    simp only
    rw [tableAtOrTrap_eq hlt, ok_bind, Table.getOrTrap_eq hcell]

theorem storeOrTrap_eq (h : t.WellFormed) (addr : Word) (e : Metadata) :
    t.storeOrTrap addr e = of (t.store addr e) := by
  rw [storeOrTrap, h.installOrTrap_eq, mapError_of, Trie.store]
  cases hi : t.install (segmentOf addr) with
  | error v => rfl
  | ok installed =>
    obtain ⟨i, t₁⟩ := installed
    obtain ⟨ht₁, hlt⟩ := h.install hi
    have hcell := (ht₁.directory.full i hlt).symm ▸ cellOf_lt addr
    simp only [Except.mapError, of_ok, ok_bind, tableAtOrTrap_eq hlt, Table.setOrTrap_eq hcell]

theorem installAllOrTrap_eq (h : t.WellFormed) (segments : List Nat) :
    t.installAllOrTrap segments = .ok (t.installAll segments) := by
  induction segments generalizing t with
  | nil => rfl
  | cons segment segments ih =>
    rw [installAllOrTrap, h.installOrTrap_eq, caught_of, ok_bind, installAll]
    cases hi : t.install segment with
    | error v => rfl
    | ok installed => exact ih (h.install hi).1

theorem preallocateOrTrap_eq (h : t.WellFormed) (addr : Word) :
    t.preallocateOrTrap addr = .ok (t.preallocate addr) := by
  have hroom := h.room
  unfold preallocateOrTrap Trie.preallocate
  cases t.policy with
  | lazy => rfl
  | eager =>
    by_cases hreach : t.primary.len ≤ segmentOf addr
    · simp only [if_pos hreach]
    · simp only [if_neg hreach]
      rw [neighboursOrTrap, addOrTrap_eq (by omega), ok_bind, ok_bind, h.installAllOrTrap_eq,
        neighbours]

theorem preallocateRangeOrTrap_eq (h : t.WellFormed) (start len : Word) :
    t.preallocateRangeOrTrap start len = .ok (t.preallocateRange start len) := by
  unfold preallocateRangeOrTrap Trie.preallocateRange
  cases t.policy with
  | lazy => rfl
  | eager =>
    by_cases hlen : len = 0
    · simp only [if_pos hlen]
    · have hpos : 1 ≤ len.toNat := Nat.one_le_iff_ne_zero.mpr fun hz => hlen (UInt64.toNat_inj.mp hz)
      simp only [if_neg hlen]
      rw [lastSegmentOrTrap, subOrTrap_eq hpos, ok_bind, ok_bind, h.installAllOrTrap_eq,
        ← lastSegment]
      split <;> rfl

theorem copyWordOrTrap_eq (h : t.WellFormed) (dest src : Word) :
    t.copyWordOrTrap dest src = of (t.copyWord dest src) := by
  rw [copyWordOrTrap, h.loadOrTrap_eq, ok_bind, isInstalledOrTrap_eq, ok_bind, h.storeOrTrap_eq,
    Trie.copyWord]
  split <;> rfl

theorem copyUpOrTrap_eq (h : t.WellFormed) {dest src : Word} {i n : Nat}
    (hdest : dest.toNat + 8 * (i + n - 1) < 1 <<< 64)
    (hsrc : src.toNat + 8 * (i + n - 1) < 1 <<< 64) :
    t.copyUpOrTrap dest src i n = .ok (t.copyUp dest src i n) := by
  induction n generalizing t i with
  | zero => rfl
  | succ n ih =>
    rw [copyUpOrTrap, wordAtOrTrap_eq (by omega), ok_bind, wordAtOrTrap_eq (by omega), ok_bind,
      h.copyWordOrTrap_eq, caught_of, ok_bind, copyUp]
    cases hc : t.copyWord (wordAt dest i) (wordAt src i) with
    | error v => rfl
    | ok t' => exact ih (h.copyWord hc) (by omega) (by omega)

theorem copyDownOrTrap_eq (h : t.WellFormed) {dest src : Word} {n : Nat}
    (hdest : dest.toNat + 8 * (n - 1) < 1 <<< 64) (hsrc : src.toNat + 8 * (n - 1) < 1 <<< 64) :
    t.copyDownOrTrap dest src n = .ok (t.copyDown dest src n) := by
  induction n generalizing t with
  | zero => rfl
  | succ n ih =>
    rw [copyDownOrTrap, wordAtOrTrap_eq (by omega), ok_bind, wordAtOrTrap_eq (by omega), ok_bind,
      h.copyWordOrTrap_eq, caught_of, ok_bind, copyDown]
    cases hc : t.copyWord (wordAt dest n) (wordAt src n) with
    | error v => rfl
    | ok t' => exact ih (h.copyWord hc) (by omega) (by omega)

theorem copyWordsOrTrap_eq (h : t.WellFormed) {dest src : Word} {n : Nat}
    (hdest : dest.toNat + 8 * (n - 1) < 1 <<< 64) (hsrc : src.toNat + 8 * (n - 1) < 1 <<< 64) :
    t.copyWordsOrTrap dest src n = .ok (t.copyWords dest src n) := by
  unfold copyWordsOrTrap copyWords
  split
  next => exact h.copyDownOrTrap_eq hdest hsrc
  next => exact h.copyUpOrTrap_eq (by simpa using hdest) (by simpa using hsrc)

theorem copySliceOrTrap_eq (h : t.WellFormed) {dest src : Word} {n : Nat} (hn : n ≠ 0)
    (hsrc : InOneSegment src n) (hdest : InOneSegment dest n) :
    t.copySliceOrTrap dest src n = of (t.copySlice dest src n) := by
  have hsrcEnd := hsrc.cellOf_add_le hn
  have hdestEnd := hdest.cellOf_add_le hn
  have hwords : segmentWords = 4194304 := rfl
  rw [copySliceOrTrap, addOrTrap_eq (by omega), ok_bind, tableOfOrTrap_eq, ok_bind, copySlice]
  cases hj : t.tableOf (segmentOf src) with
  | none =>
    simp only [tableOfOrTrap_eq, ok_bind]
    cases hi : t.tableOf (segmentOf dest) with
    | none => rfl
    | some i =>
      have hlt := h.directory.lt hi
      have hlen := h.directory.full i hlt
      simp only
      rw [tableAtOrTrap_eq hlt, ok_bind, addOrTrap_eq (by omega), ok_bind,
        Table.rangeOrTrap_eq (by omega) (by omega), ok_bind, of_ok]
  | some j =>
    simp only [h.installOrTrap_eq, mapError_of]
    cases hi : t.install (segmentOf dest) with
    | error v => rfl
    | ok installed =>
      obtain ⟨i, t₁⟩ := installed
      obtain ⟨ht₁, hlt⟩ := h.install hi
      have hjlt := (h.directory.lt hj).trans_le ((Grown.refl t).install hi).size_le
      have hlen := ht₁.directory.full i hlt
      have hjlen := ht₁.directory.full j hjlt
      simp only [Except.mapError, of_ok, ok_bind]
      by_cases heq : j = i
      · subst heq
        rw [if_pos rfl, tableAtOrTrap_eq hlt, ok_bind, Table.rangeOrTrap_eq (by omega) (by omega),
          ok_bind, demand_eq (by omega), ok_bind]
      · rw [if_neg heq, pairOrTrap_eq hjlt hlt heq, ok_bind]
        simp only
        rw [addOrTrap_eq (by omega), ok_bind, Table.rangeOrTrap_eq (by omega) (by omega), ok_bind,
          Table.rangeOrTrap_eq (by omega) (by omega), ok_bind]

theorem copyMetadataOrTrap_eq (h : t.WellFormed) (dest src len : Word) :
    t.copyMetadataOrTrap dest src len = .ok (t.copyMetadata dest src len) := by
  unfold copyMetadataOrTrap Trie.copyMetadata
  simp only
  have hlen := len.toNat_lt
  split
  next => rfl
  next hz =>
    have hn : len.toNat / 8 ≠ 0 := fun hn => hz (Or.inr hn)
    rw [subOrTrap_eq (Nat.one_le_iff_ne_zero.mpr hn), ok_bind, mulOrTrap_eq (by omega), ok_bind,
      Nat.mul_comm, ← lastWord, ← lastWord]
    split
    next => rfl
    next hsrc =>
      split
      next => rfl
      next hdest =>
        have hone : (segmentOf src = lastWord src (len.toNat / 8) / segmentBytes ∧
            segmentOf dest = lastWord dest (len.toNat / 8) / segmentBytes)
              = (InOneSegment src (len.toNat / 8) ∧ InOneSegment dest (len.toNat / 8)) := rfl
        simp only [hone]
        split
        next hin =>
          rw [h.copySliceOrTrap_eq hn hin.1 hin.2, caught_of, ok_bind]
          cases t.copySlice dest src (len.toNat / 8) <;> rfl
        next =>
          rw [h.copyWordsOrTrap_eq (Nat.lt_of_not_le hdest) (Nat.lt_of_not_le hsrc), ok_bind]
          rcases t.copyWords dest src (len.toNat / 8) with ⟨_ | _, _⟩ <;> rfl

end WellFormed

end PointerGuard.Trie
