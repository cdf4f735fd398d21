import PointerGuard.Proofs.Trie.Paths

namespace PointerGuard.Trie

variable {host : Host}
variable {mode : Mode} {t : Trie mode} {s k : Nat} {addr : Word} {e : Metadata} {r : Request}

/-- What a request stores in a word, if it succeeds. -/
def stored (t : Trie mode) (k : Nat) : Request → Option Metadata
  | .store addr e =>
    if k = wordOf addr then (t.store addr e).toOption.map fun _ => mode.keep e else none
  | _ => none

/-- What the last successful store of a run to a word has left there, if there was one. -/
def lastStored (t : Trie mode) (k : Nat) : List Request → Option Metadata
  | [] => none
  | r :: rs => ((t.step r).lastStored k rs).or (t.stored k r)

theorem store_eq_ok_iff_open : (∃ t', t.store addr e = .ok t') ↔ t.Open (segmentOf addr) := by
  constructor
  · rintro ⟨t', hs⟩
    exact (open_of_store hs).1
  · intro hopen
    obtain ⟨i, t₁, hi⟩ := open_iff_install.mp hopen
    rw [Trie.store, hi]
    exact ⟨_, rfl⟩

theorem store_eq_ok_iff : (∃ t', t.store addr e = .ok t') ↔
    segmentOf addr < t.primary.len ∧ (t.isInstalled addr = true ∨ t.tables.size < tableLimit) := by
  rw [store_eq_ok_iff_open]
  constructor
  · rintro (hsome | ⟨hreach, hroom⟩)
    · obtain ⟨i, hi⟩ := Option.isSome_iff_exists.mp hsome
      exact ⟨lt_of_tableOf hi, Or.inl hsome⟩
    · exact ⟨hreach, Or.inr hroom⟩
  · rintro ⟨hreach, hsome | hroom⟩
    · exact Or.inl hsome
    · exact Or.inr ⟨hreach, hroom⟩

theorem store_eq_untrackable_iff :
    t.store addr e = .error (.untrackableAddress addr) ↔ t.primary.len ≤ segmentOf addr := by
  constructor
  · intro h
    obtain ⟨_, ⟨hreach, _⟩ | ⟨_, _, hv⟩⟩ := store_eq_error h
    · exact hreach
    · cases hv
  · intro hreach
    cases hs : t.store addr e with
    | ok t' =>
      obtain ⟨hlt, _⟩ := store_eq_ok_iff.mp ⟨t', hs⟩
      omega
    | error v =>
      obtain ⟨_, ⟨_, rfl⟩ | ⟨hlt, _⟩⟩ := store_eq_error hs
      · rfl
      · omega

theorem segmentOf_lt_iff {n : Nat} : segmentOf addr < n ↔ addr.toNat < n * 2 ^ 25 :=
  Nat.div_lt_iff_lt_mul (by decide)

/-- There are numbers for all tables, if the slots of the primary table are not more than those. -/
theorem Directory.store_succeeds (ht : t.Directory) (hslots : t.primary.len ≤ tableLimit)
    (hreach : segmentOf addr < t.primary.len) (e : Metadata) : ∃ t', t.store addr e = .ok t' := by
  rw [store_eq_ok_iff_open]
  cases hs : t.tableOf (segmentOf addr) with
  | some i => exact Or.inl (by rw [hs]; rfl)
  | none =>
    have hroom := ht.size_lt hreach hs
    exact Or.inr ⟨hreach, Nat.lt_of_lt_of_le hroom hslots⟩

theorem word_preallocate (ht : t.Sound) (addr : Word) (k : Nat) :
    (t.step (.preallocate addr)).word k = t.word k :=
  (Outside.preallocate (W := fun _ => False) addr).same ht k not_false

theorem word_preallocateRange (ht : t.Sound) (start len : Word) (k : Nat) :
    (t.step (.preallocateRange start len)).word k = t.word k :=
  (Outside.preallocateRange (W := fun _ => False) start len).same ht k not_false

theorem word_step (ht : t.Sound) (hr : ∀ dest src len, r ≠ .copyMetadata dest src len) (k : Nat) :
    (t.step r).word k = (t.stored k r).getD (t.word k) := by
  cases r with
  | store addr e =>
    rw [step, stored]
    cases hs : t.store addr e with
    | error v =>
      split
      next => rfl
      next => rfl
    | ok t' =>
      have hword : t'.word k = _ := word_store ht hs k
      split
      next hk => rwa [if_pos hk] at hword
      next hk => rwa [if_neg hk] at hword
  | copyMetadata dest src len => exact absurd rfl (hr dest src len)
  | preallocate addr => exact word_preallocate ht addr k
  | preallocateRange start len => exact word_preallocateRange ht start len k

/-- A word holds what the last store to it has left there, or what it held before the run. -/
theorem word_after (ht : t.Sound) {rs : List Request}
    (hn : ∀ dest src len, .copyMetadata dest src len ∉ rs) (k : Nat) :
    (t.after rs).word k = (t.lastStored k rs).getD (t.word k) := by
  induction rs generalizing t with
  | nil => rfl
  | cons r rs ih =>
    have hfirst : ∀ dest src len, r ≠ .copyMetadata dest src len := fun dest src len heq =>
      hn dest src len (heq ▸ List.mem_cons_self ..)
    have hrest : ∀ dest src len, .copyMetadata dest src len ∉ rs := fun dest src len hm =>
      hn dest src len (List.mem_cons_of_mem _ hm)
    have hstep := word_step ht hfirst k
    have hlater := ih ((grown_step t r).sound ht) hrest
    -- what the rest of the run stores hides what this request stores
    rw [lastStored, Option.getD_or, ← hstep]
    exact hlater

/-- Every address has the entry that the last successful store to its word has left, and a store
succeeds exactly within the reach of the primary table. -/
theorem trie_is_flat_map {primaryEntries : Nat} {policy : InstallPolicy}
    (hc : Trie.create host primaryEntries policy = .ok t) {rs : List Request}
    (hn : ∀ dest src len, .copyMetadata dest src len ∉ rs) :
    let before := t.after rs
    (∀ addr e,
      (before.store addr e = .error (.untrackableAddress addr) ↔
        primaryEntries * 2 ^ 25 ≤ addr.toNat) ∧
      ((∃ t', before.store addr e = .ok t') ↔
        addr.toNat < primaryEntries * 2 ^ 25 ∧
          (before.isInstalled addr = true ∨ before.tables.size < tableLimit)) ∧
      (primaryEntries ≤ tableLimit → addr.toNat < primaryEntries * 2 ^ 25 →
        ∃ t', before.store addr e = .ok t') ∧
      ∀ v, before.store addr e = .error v → before.step (.store addr e) = before) ∧
    (∀ b, before.load b = (t.lastStored (wordOf b) rs).getD .unknown) ∧
    (∀ addr b, (before.step (.preallocate addr)).load b = before.load b) ∧
    ∀ start len b, (before.step (.preallocateRange start len)).load b = before.load b := by
  intro before
  have hgrown := grown_after t rs
  have hdirectory : before.Directory := hgrown.directory (directory_create hc)
  have hlen : before.primary.len = primaryEntries := by rw [hgrown.len, create_eq_ok hc]
  have hreach (addr : Word) :
      segmentOf addr < before.primary.len ↔ addr.toNat < primaryEntries * 2 ^ 25 := by
    rw [hlen, segmentOf_lt_iff]
  refine ⟨fun addr e => ⟨?untrackable, ?stored, fun hslots hlt => ?slots, fun v hv => ?failed⟩,
    fun b => ?load, fun addr b => ?preallocate, fun start len b => ?range⟩
  case untrackable => rw [store_eq_untrackable_iff, ← Nat.not_lt, hreach, Nat.not_lt]
  case stored => rw [store_eq_ok_iff, hreach]
  case slots => exact hdirectory.store_succeeds (hlen ▸ hslots) ((hreach addr).mpr hlt) e
  case failed =>
    rw [step, hv]
    rfl
  case load => rw [load_eq_word, word_after (sound_create hc) hn, word_create hc]
  case preallocate => rw [load_eq_word, load_eq_word, word_preallocate hdirectory.toSound]
  case range => rw [load_eq_word, load_eq_word, word_preallocateRange hdirectory.toSound]

/-- The two stores are to one word, whose segment has a table when the range is installed, and the
third is to the first address out of reach. -/
theorem trie_is_flat_map_of_one_word :
    ∃ t : Trie .combined, Trie.create .standard 4 .eager = .ok t ∧
      let rs := [.store 0x1fffff8 ⟨1, 2, 3, 4⟩, .preallocateRange 0x1000000 0x3000000,
        .store 0x1fffffb ⟨5, 6, 7, 8⟩, .store 0x8000000 ⟨9, 10, 11, 12⟩]
      (∀ dest src len, .copyMetadata dest src len ∉ rs) ∧
      (t.after rs).load 0x1ffffff = ⟨5, 6, 7, 8⟩ ∧ (t.after rs).load 0x8000000 = .unknown := by
  obtain ⟨t, hc, hfirst, hsecond⟩ : ∃ t : Trie .combined, Trie.create .standard 4 .eager = .ok t ∧
      let rs := [.store 0x1fffff8 ⟨1, 2, 3, 4⟩, .preallocateRange 0x1000000 0x3000000,
        .store 0x1fffffb ⟨5, 6, 7, 8⟩, .store 0x8000000 ⟨9, 10, 11, 12⟩]
      t.lastStored (wordOf 0x1ffffff) rs = some ⟨5, 6, 7, 8⟩ ∧
      t.lastStored (wordOf 0x8000000) rs = none :=
    ⟨_, rfl, rfl, rfl⟩
  have hn : ∀ dest src len, Request.copyMetadata dest src len ∉ [
      .store 0x1fffff8 ⟨1, 2, 3, 4⟩, .preallocateRange 0x1000000 0x3000000,
      .store 0x1fffffb ⟨5, 6, 7, 8⟩, .store 0x8000000 ⟨9, 10, 11, 12⟩] := by simp
  obtain ⟨_, hload, _⟩ := trie_is_flat_map hc hn
  have hinside := hload 0x1ffffff
  have houtside := hload 0x8000000
  rw [hfirst] at hinside
  rw [hsecond] at houtside
  exact ⟨t, hc, hn, hinside, houtside⟩

end PointerGuard.Trie
