import PointerGuard.Proofs.Guard.Dereference
import PointerGuard.Proofs.Trie.FlatMap
import PointerGuard.Proofs.Trie.Projection

namespace PointerGuard

variable {host : Host}

/-- The string ends, its terminator included, within the words. -/
def StringFits (string : Word × Word) : Prop := string.1.toNat + string.2.toNat + 1 < 2 ^ 64

/-- What is recorded for a string, which is never released. -/
def stringEntry (lock : Word) (string : Word × Word) : Metadata :=
  ⟨string.1, string.1 + string.2 + 1, globalKey, lock⟩

namespace Trie

variable {mode : Mode} {t t₁ t' : Trie mode}

/-- The segments of the lanes of a vector of `n` pointers. -/
def laneSegments (vector : Word) (n : Nat) : Finset Nat :=
  (Finset.range n).image fun i => segmentOf (wordAt vector i)

theorem mem_laneSegments {vector : Word} {n i : Nat} (hi : i < n) :
    segmentOf (wordAt vector i) ∈ laneSegments vector n :=
  Finset.mem_image_of_mem _ (Finset.mem_range.mpr hi)

/-- The entry of a string is stored in a lane of a vector. -/
structure StoresString (vector lock : Word) (lane : Nat) (string : Word × Word) (t t' : Trie mode) :
    Prop where
  fits : StringFits string
  inside : vector.toNat + 8 * lane < 2 ^ 64
  store : t.store (wordAt vector lane) (stringEntry lock string) = .ok t'

/-- The lanes of a vector from `first` on have got the entries of the strings, all of which fit, and
no other words have changed. -/
structure Registered (vector lock : Word) (first : Nat) (strings : List (Word × Word))
    (t t' : Trie mode) : Prop where
  fits : ∀ string ∈ strings, StringFits string
  inside : ∀ i < strings.length, vector.toNat + 8 * (first + i) < 2 ^ 64
  lanes : ∀ i string a, strings[i]? = some string → wordOf a = wordOf vector + (first + i) →
    t'.load a = mode.keep (stringEntry lock string)
  others : ∀ a, (∀ i < strings.length, wordOf a ≠ wordOf vector + (first + i)) →
    t'.load a = t.load a
  installed : ∀ s, s ∈ t'.installed ↔
    s ∈ t.installed ∨ ∃ i < strings.length, s = segmentOf (wordAt vector (first + i))
  grown : Grown t t'

variable {vector lock : Word} {first : Nat} {string : Word × Word} {strings : List (Word × Word)}

theorem Registered.nil (t : Trie mode) : t.Registered vector lock first [] t where
  fits _ hm := by cases hm
  inside i hi := by cases hi
  lanes i string a hs := by cases hs
  others _ _ := rfl
  installed s := by simp
  grown := .refl t

/-- The first string is stored below the lanes of the others, so that its entry stays. -/
theorem Registered.cons (ht : t.Sound) (hs : t.StoresString vector lock first string t₁)
    (hr : t₁.Registered vector lock (first + 1) strings t') :
    t.Registered vector lock first (string :: strings) t' := by
  have hword : wordOf (wordAt vector first) = wordOf vector + first := wordOf_wordAt hs.inside
  have hnext (i : Nat) : first + 1 + i = first + (i + 1) := by omega
  refine ⟨List.forall_mem_cons.mpr ⟨hs.fits, hr.fits⟩, ?inside, ?lanes, ?others, ?installed,
    (Grown.store hs.store).trans hr.grown⟩
  case inside =>
    intro i hi
    cases i with
    | zero => exact hs.inside
    | succ i => exact hnext i ▸ hr.inside i (by simpa using hi)
  case lanes =>
    intro i string' a hi ha
    cases i with
    | zero =>
      cases Option.some.inj hi
      rw [hr.others a (fun i _ => by omega), load_store ht hs.store, if_pos (by omega)]
    | succ i => exact hr.lanes i string' a hi (by omega)
  case others =>
    intro a ha
    have hfirst := ha 0 (by simp)
    have hrest : ∀ i < strings.length, wordOf a ≠ wordOf vector + (first + 1 + i) :=
      fun i hi => hnext i ▸ ha (i + 1) (by simpa using hi)
    rw [hr.others a hrest, load_store ht hs.store, if_neg (by omega)]
  case installed =>
    intro s
    rw [hr.installed, installed_store hs.store, Finset.mem_insert]
    constructor
    · rintro ((hlane | hold) | ⟨i, hi, hlane⟩)
      · exact .inr ⟨0, by simp, hlane⟩
      · exact .inl hold
      · exact .inr ⟨i + 1, by simpa using hi, hnext i ▸ hlane⟩
    · rintro (hold | ⟨i, hi, hlane⟩)
      · exact .inl (.inr hold)
      · cases i with
        | zero => exact .inl (.inl hlane)
        | succ i => exact .inr ⟨i, by simpa using hi, (hnext i).symm ▸ hlane⟩

theorem Registered.union_subset (h : t.Registered vector lock 0 strings t') :
    t.installed ∪ laneSegments vector strings.length ⊆ t'.installed := by
  refine Finset.union_subset (fun s hs => (h.installed s).mpr (.inl hs)) fun s hs => ?_
  obtain ⟨i, hi, rfl⟩ := Finset.mem_image.mp hs
  refine (h.installed _).mpr (.inr ⟨i, Finset.mem_range.mp hi, ?_⟩)
  rw [Nat.zero_add]

theorem Registered.reached (h : t.Registered vector lock 0 strings t') {i : Nat}
    (hi : i < strings.length) : segmentOf (wordAt vector i) < t.primary.len := by
  rw [← h.grown.len]
  exact lt_of_mem_installed (h.union_subset (Finset.mem_union_right _ (mem_laneSegments hi)))

theorem Registered.numbered (h : t.Registered vector lock 0 strings t') (ht : t.Directory)
    (hlimit : t.tables.size ≤ tableLimit) :
    (t.installed ∪ laneSegments vector strings.length).card ≤ tableLimit :=
  calc (t.installed ∪ laneSegments vector strings.length).card
      ≤ t'.installed.card := Finset.card_le_card h.union_subset
    _ = t'.tables.size := (h.grown.directory ht).count
    _ ≤ tableLimit := h.grown.size_le_limit hlimit

/-- Nothing but the strings and the vector themselves keeps a lane of a supplied trie from its
entry. -/
theorem Registered.supplied {reach : Nat} {S : Finset Nat} (ht : t.Supplied reach S)
    (h : t.Registered vector lock 0 strings t')
    (hs : laneSegments vector strings.length ⊆ S) : t'.Supplied reach S where
  toDirectory := h.grown.directory ht.toDirectory
  len := h.grown.len.trans ht.len
  below := ht.below
  within := by
    intro s hs'
    rcases (h.installed s).mp hs' with hold | ⟨i, hi, rfl⟩
    · exact ht.within hold
    · rw [Nat.zero_add]
      exact hs (mem_laneSegments hi)
  enough := ht.enough

end Trie

namespace Guard

open Trie (wordAt StoresString Registered laneSegments)

variable {mode : Mode} {g g' : Guard mode} {vector : Word} {lane first : Nat} {e : Metadata}
  {string : Word × Word} {strings : List (Word × Word)} {t : Trie mode}

theorem laneAddress_of_inside (h : vector.toNat + 8 * lane < 2 ^ 64) :
    laneAddress vector lane = .ok (wordAt vector lane) :=
  if_pos h

theorem laneAddress_of_outside (h : ¬vector.toNat + 8 * lane < 2 ^ 64) :
    laneAddress vector lane = .error (.untrackableAddress vector) :=
  if_neg h

theorem run_storeLane_of_ok (hin : vector.toNat + 8 * lane < 2 ^ 64)
    (hs : g.trie.store (wordAt vector lane) e = .ok t) : (storeLane vector lane e).run g
      = (.ok (), { g with trie := t, metrics := g.metrics.bump .metadataStores }) := by
  rw [storeLane, Action.run_test_bind_of_ok (laneAddress_of_inside hin)]
  exact run_storeMetadata_of_ok hs

theorem run_storeLane_of_refused
    (h : ¬(vector.toNat + 8 * lane < 2 ^ 64 ∧ ∃ t, g.trie.store (wordAt vector lane) e = .ok t)) :
    ∃ v metrics, (storeLane vector lane e).run g = (.error v, { g with metrics }) := by
  by_cases hin : vector.toNat + 8 * lane < 2 ^ 64
  · cases hs : g.trie.store (wordAt vector lane) e with
    | ok t => exact absurd ⟨hin, t, hs⟩ h
    | error v =>
      rw [storeLane, Action.run_test_bind_of_ok (laneAddress_of_inside hin)]
      exact ⟨v, g.metrics.bump .metadataStores, run_storeMetadata_of_error hs⟩
  · exact ⟨.untrackableAddress vector, g.metrics,
      Action.run_test_bind_of_error (laneAddress_of_outside hin)⟩

theorem run_storeStrings_of_stores (h : g.trie.StoresString vector g.globalLock first string t) :
    (storeStrings vector first (string :: strings)).run g = (storeStrings vector (first + 1)
      strings).run { g with trie := t, metrics := g.metrics.bump .metadataStores } := by
  obtain ⟨start, len⟩ := string
  have hbound : stringBound start len = .ok (start + len + 1) := if_pos h.fits
  rw [storeStrings, Action.run_test_bind_of_ok hbound, Action.run_read_bind]
  exact Action.run_bind_of_ok (run_storeLane_of_ok h.inside h.store)

theorem run_storeStrings_of_refused (strings : List (Word × Word))
    (h : ¬∃ t, g.trie.StoresString vector g.globalLock first string t) :
    ∃ v metrics, (storeStrings vector first (string :: strings)).run g
      = (.error v, { g with metrics }) := by
  obtain ⟨start, len⟩ := string
  by_cases hfits : StringFits (start, len)
  · have hbound : stringBound start len = .ok (start + len + 1) := if_pos hfits
    have hno : ¬(vector.toNat + 8 * first < 2 ^ 64 ∧
        ∃ t, g.trie.store (wordAt vector first) (stringEntry g.globalLock (start, len)) = .ok t) :=
      fun ⟨hin, t, hs⟩ => h ⟨t, hfits, hin, hs⟩
    obtain ⟨v, metrics, hlane⟩ := run_storeLane_of_refused hno
    refine ⟨v, metrics, ?_⟩
    rw [storeStrings, Action.run_test_bind_of_ok hbound, Action.run_read_bind]
    exact Action.run_bind_of_error hlane
  · have hbound : stringBound start len = .error (.untrackableAddress start) := if_neg hfits
    exact ⟨.untrackableAddress start, g.metrics, Action.run_test_bind_of_error hbound⟩

/-- Some strings from the first on are registered, either all of them or those before one that
cannot be. -/
theorem storeStrings_registers (ht : g.trie.Sound) (vector : Word) (first : Nat)
    (strings : List (Word × Word)) :
    ∃ t metrics, ∃ j ≤ strings.length,
      g.trie.Registered vector g.globalLock first (strings.take j) t ∧
      (j = strings.length ∧ (storeStrings vector first strings).run g
          = (.ok (), { g with trie := t, metrics }) ∨
        (∃ string, strings[j]? = some string ∧
          ¬∃ t', t.StoresString vector g.globalLock (first + j) string t') ∧
        ∃ v, (storeStrings vector first strings).run g
          = (.error v, { g with trie := t, metrics })) := by
  induction strings generalizing g first with
  | nil => exact ⟨g.trie, g.metrics, 0, Nat.le_refl 0, .nil g.trie, .inl ⟨rfl, rfl⟩⟩
  | cons string strings ih =>
    by_cases hs : ∃ t, g.trie.StoresString vector g.globalLock first string t
    · obtain ⟨t₁, hs⟩ := hs
      obtain ⟨t, metrics, j, hj, hr, hend⟩ := ih
        (g := { g with trie := t₁, metrics := g.metrics.bump .metadataStores }) (ht.store hs.store)
        (first + 1)
      rw [← run_storeStrings_of_stores hs] at hend
      refine ⟨t, metrics, j + 1, Nat.succ_le_succ hj, .cons ht hs hr, hend.imp ?all ?stopped⟩
      case all =>
        rintro ⟨rfl, hrun⟩
        exact ⟨rfl, hrun⟩
      case stopped =>
        rintro ⟨⟨string', hj', hno⟩, hrun⟩
        have hlane : first + 1 + j = first + (j + 1) := by omega
        exact ⟨⟨string', hj', hlane ▸ hno⟩, hrun⟩
    · obtain ⟨v, metrics, hrun⟩ := run_storeStrings_of_refused strings hs
      exact ⟨g.trie, metrics, 0, Nat.zero_le _, .nil g.trie, .inr ⟨⟨string, rfl, hs⟩, v, hrun⟩⟩

theorem run_registerStrings_of_ok (hs : (storeStrings vector 0 strings).run g = (.ok (), g'))
    (hin : vector.toNat + 8 * (strings.length + 1) < 2 ^ 64) :
    (registerStrings vector strings).run g = (.ok (mode.keep
      ⟨vector, wordAt vector (strings.length + 1), globalKey, g'.globalLock⟩), g') := by
  rw [registerStrings, Action.run_bind_of_ok hs,
    Action.run_test_bind_of_ok (laneAddress_of_inside hin), Action.run_read_bind]
  rfl

theorem run_registerStrings_of_outside (hs : (storeStrings vector 0 strings).run g = (.ok (), g'))
    (hout : ¬vector.toNat + 8 * (strings.length + 1) < 2 ^ 64) :
    (registerStrings vector strings).run g = (.error (.untrackableAddress vector), g') := by
  rw [registerStrings, Action.run_bind_of_ok hs]
  exact Action.run_test_bind_of_error (laneAddress_of_outside hout)

/-- The vector is registered with all its strings, or a failure keeps the entries of those before
the first that cannot be registered. -/
theorem registerStrings_cases (ht : g.trie.Sound) (vector : Word) (strings : List (Word × Word)) :
    let r := (registerStrings vector strings).run g
    r.1 = .ok (mode.keep ⟨vector, wordAt vector (strings.length + 1), globalKey, g.globalLock⟩) ∧
      vector.toNat + 8 * (strings.length + 1) < 2 ^ 64 ∧
      g.trie.Registered vector g.globalLock 0 strings r.2.trie ∨
    (∃ v, r.1 = .error v) ∧ ∃ j ≤ strings.length,
      g.trie.Registered vector g.globalLock 0 (strings.take j) r.2.trie ∧
      (¬vector.toNat + 8 * (strings.length + 1) < 2 ^ 64 ∨ ∃ string, strings[j]? = some string ∧
        ¬∃ t', r.2.trie.StoresString vector g.globalLock j string t') := by
  intro r
  obtain ⟨t, metrics, j, hj, hr, ⟨rfl, hrun⟩ | ⟨⟨string, hstring, hno⟩, v, hrun⟩⟩ :=
    storeStrings_registers ht vector 0 strings
  · by_cases hin : vector.toNat + 8 * (strings.length + 1) < 2 ^ 64
    · have hall : r = _ := run_registerStrings_of_ok hrun hin
      rw [List.take_length] at hr
      rw [hall]
      exact .inl ⟨rfl, hin, hr⟩
    · have hall : r = _ := run_registerStrings_of_outside hrun hin
      rw [hall]
      exact .inr ⟨⟨_, rfl⟩, strings.length, hj, hr, .inl hin⟩
  · have hall : r = _ := Action.run_bind_of_error hrun
    rw [hall]
    rw [Nat.zero_add] at hno
    exact .inr ⟨⟨v, rfl⟩, j, hj, hr, .inr ⟨string, hstring, hno⟩⟩

/-- A trie that can hold the lanes of a vector registers all its strings that fit. -/
theorem registerStrings_succeeds {reach : Nat}
    (ht : g.trie.Supplied reach (g.trie.installed ∪ laneSegments vector strings.length))
    (hfits : ∀ string ∈ strings, StringFits string)
    (hin : vector.toNat + 8 * (strings.length + 1) < 2 ^ 64) :
    ∃ m, ((registerStrings vector strings).run g).1 = .ok m := by
  obtain ⟨hok, _⟩ | ⟨_, j, hj, hr, hout | ⟨string, hstring, hno⟩⟩ :=
    registerStrings_cases ht.toSound vector strings
  · exact ⟨_, hok⟩
  · exact absurd hin hout
  · -- the lane that was not stored has a segment with a table, or with room for one
    obtain ⟨hlt, hget⟩ := List.getElem?_eq_some_iff.mp hstring
    have hlane : segmentOf (wordAt vector j) ∈ laneSegments vector strings.length :=
      Trie.mem_laneSegments hlt
    have hstored := hr.supplied ht ?_
    · obtain ⟨t', hs, _⟩ := hstored.store (Finset.mem_union_right _ hlane)
        (stringEntry g.globalLock string)
      have hfit : StringFits string := hfits string (hget ▸ List.getElem_mem hlt)
      exact absurd ⟨t', hfit, by omega, hs⟩ hno
    · refine (Finset.image_subset_image ?_).trans Finset.subset_union_right
      rw [Finset.range_subset_range, List.length_take]
      omega

theorem trie_after {config : Config} (hc : Guard.create host config = .ok g) (ops : List Operation) :
    (g.after ops).trie.Directory ∧ (g.after ops).trie.primary.len = config.primaryEntries ∧
      (g.after ops).trie.tables.size ≤ tableLimit := by
  obtain ⟨_, htrie, _⟩ := create_eq_ok hc
  have hgrown : Trie.Grown g.trie (g.after ops).trie :=
    (g.outside_after (W := fun _ => True) ops fun _ _ _ _ => trivial).grown
  refine ⟨hgrown.directory (Trie.directory_create htrie), ?_, hgrown.size_le_limit ?_⟩
  · rw [hgrown.len, Trie.create_eq_ok htrie]
  · rw [Trie.create_eq_ok htrie]
    exact Nat.zero_le _

/-- A vector of strings is registered with the global key and its null entry, and its lanes get the
entries of the strings; a failure leaves those of some strings from the first on. -/
theorem registerStrings_exact {config : Config} (hc : Guard.create host config = .ok g)
    (ops : List Operation) (vector : Word) (strings : List (Word × Word)) :
    let before := g.after ops
    let r := (registerStrings vector strings).run before
    let reached := ∀ i < strings.length, (wordAt vector i).toNat < config.primaryEntries * 2 ^ 25
    let segments := before.trie.installed ∪ laneSegments vector strings.length
    (∀ m, r.1 = .ok m →
      m = mode.keep ⟨vector, wordAt vector (strings.length + 1), globalKey, before.globalLock⟩ ∧
      before.trie.Registered vector before.globalLock 0 strings r.2.trie) ∧
    (∀ v, r.1 = .error v → ∃ j ≤ strings.length,
      before.trie.Registered vector before.globalLock 0 (strings.take j) r.2.trie) ∧
    ((∃ m, r.1 = .ok m) ↔ (∀ string ∈ strings, StringFits string) ∧
      vector.toNat + 8 * (strings.length + 1) < 2 ^ 64 ∧ reached ∧ segments.card ≤ tableLimit) ∧
    (config.primaryEntries ≤ tableLimit → reached → segments.card ≤ tableLimit) := by
  intro before r reached segments
  obtain ⟨hdirectory, hlen, hlimit⟩ := trie_after hc ops
  have hbelow (h : reached) : ∀ s ∈ segments, s < config.primaryEntries := by
    intro s hs
    rcases Finset.mem_union.mp hs with hold | hlane
    · exact hlen ▸ Trie.lt_of_mem_installed hold
    · obtain ⟨i, hi, rfl⟩ := Finset.mem_image.mp hlane
      exact Trie.segmentOf_lt_iff.mpr (h i (Finset.mem_range.mp hi))
  have hcases := registerStrings_cases hdirectory.toSound vector strings
  refine ⟨fun m hm => ?ok, fun v hv => ?error, ⟨fun ⟨m, hm⟩ => ?needs, ?enough⟩,
    fun hslots h => ?slots⟩
  case ok =>
    obtain ⟨hok, _, hr⟩ | ⟨⟨v, hv⟩, _⟩ := hcases
    · exact ⟨Except.ok.inj (hm.symm.trans hok), hr⟩
    · cases hm.symm.trans hv
  case error =>
    obtain ⟨hok, _⟩ | ⟨_, j, hj, hr, _⟩ := hcases
    · cases hv.symm.trans hok
    · exact ⟨j, hj, hr⟩
  case needs =>
    obtain ⟨_, hin, hr⟩ | ⟨⟨v, hv⟩, _⟩ := hcases
    · refine ⟨hr.fits, hin, fun i hi => ?_, hr.numbered hdirectory hlimit⟩
      exact Trie.segmentOf_lt_iff.mp (hlen ▸ hr.reached hi)
    · cases hm.symm.trans hv
  case enough =>
    rintro ⟨hfits, hin, hreach, henough⟩
    have hsupplied : before.trie.Supplied config.primaryEntries segments :=
      ⟨hdirectory, hlen, hbelow hreach, Finset.subset_union_left, henough⟩
    exact registerStrings_succeeds hsupplied hfits hin
  case slots =>
    have hrange : segments ⊆ Finset.range config.primaryEntries :=
      fun s hs => Finset.mem_range.mpr (hbelow h s hs)
    calc segments.card ≤ (Finset.range config.primaryEntries).card := Finset.card_le_card hrange
      _ = config.primaryEntries := Finset.card_range _
      _ ≤ tableLimit := hslots

/-- The first lane holds the end of one segment, and the second one the start of the next; the
vector is not aligned, and one of its strings is empty. -/
theorem registerStrings_exact_across_segments :
    ∃ g : Guard .combined, Guard.create .standard Config.compact = .ok g ∧
      let r := (registerStrings 0x1fffffc [(0x4000, 5), (0x4010, 0)]).run g
      r.1 = .ok ⟨0x1fffffc, 0x2000014, globalKey, globalLockAddr⟩ ∧
      r.2.trie.load 0x1fffff8 = ⟨0x4000, 0x4006, globalKey, globalLockAddr⟩ ∧
      r.2.trie.load 0x2000007 = ⟨0x4010, 0x4011, globalKey, globalLockAddr⟩ := by
  obtain ⟨g, hc, hlock⟩ : ∃ g : Guard .combined, Guard.create .standard Config.compact = .ok g ∧
      g.globalLock = globalLockAddr :=
    ⟨_, rfl, rfl⟩
  obtain ⟨hok, _, hiff, hroom⟩ :=
    registerStrings_exact hc [] 0x1fffffc [(0x4000, 5), (0x4010, 0)]
  have hreach : ∀ i < 2, (wordAt 0x1fffffc i).toNat < Config.compact.primaryEntries * 2 ^ 25 := by
    decide
  have hfits : ∀ string ∈ [((0x4000, 5) : Word × Word), (0x4010, 0)], StringFits string := by
    simp [StringFits]
  obtain ⟨m, hm⟩ := hiff.mpr ⟨hfits, by decide, hreach, hroom (by decide) hreach⟩
  obtain ⟨hvector, hr⟩ := hok m hm
  have hfirst := hr.lanes 0 _ 0x1fffff8 rfl (by decide)
  have hsecond := hr.lanes 1 _ 0x2000007 rfl (by decide)
  have hafter : (g.after []).globalLock = globalLockAddr := hlock
  rw [hafter] at hvector hfirst hsecond
  exact ⟨g, hc, hm.trans (congrArg Except.ok hvector), hfirst, hsecond⟩

end Guard

end PointerGuard
