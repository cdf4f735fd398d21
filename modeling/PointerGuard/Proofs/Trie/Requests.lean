import PointerGuard.Proofs.Runs
import PointerGuard.Proofs.Trie.Moves

namespace PointerGuard.Trie

variable {host : Host} {mode : Mode} {t : Trie mode}

inductive Request where
  | store (addr : Word) (e : Metadata)
  | copyMetadata (dest src len : Word)
  | preallocate (addr : Word)
  | preallocateRange (start len : Word)
deriving DecidableEq, Repr

/-- The trie after a request, whether it succeeds or not. -/
def step (t : Trie mode) : Request → Trie mode
  | .store addr e => (t.store addr e).toOption.getD t
  | .copyMetadata dest src len => (t.copyMetadata dest src len).2
  | .preallocate addr => (t.preallocate addr).2
  | .preallocateRange start len => (t.preallocateRange start len).2

def after (t : Trie mode) (rs : List Request) : Trie mode := rs.foldl step t

theorem word_create {primaryEntries : Nat} {policy : InstallPolicy}
    (h : Trie.create host primaryEntries policy = .ok t) (k : Nat) : t.word k = .unknown := by
  cases create_eq_ok h
  exact word_of_tableOf_none (by simp [tableOf])

theorem trimmed_create {primaryEntries : Nat} {policy : InstallPolicy}
    (h : Trie.create host primaryEntries policy = .ok t) : t.Trimmed := by
  refine ⟨sound_create h, fun k => ?_⟩
  rw [word_create h, Mode.keep_unknown]

theorem Trimmed.step (h : t.Trimmed) (r : Request) : (t.step r).Trimmed := by
  cases r with
  | store addr e =>
    rw [Trie.step]
    cases hs : t.store addr e with
    | error v => exact h
    | ok t' => exact h.store hs
  | copyMetadata dest src len =>
    obtain ⟨_, _, hm, _⟩ := Moved.copyMetadata h dest src len
    exact hm.trimmed
  | preallocate addr => exact h.of_outside (.preallocate addr)
  | preallocateRange start len => exact h.of_outside (.preallocateRange start len)

theorem trimmed_after (h : t.Trimmed) (rs : List Request) : (t.after rs).Trimmed :=
  Runs.foldl_invariant (fun _ r ht => ht.step r) rs h

/-- If a copy succeeds, the words of the destination have the entries that those of the source had
before, however the two overlap, and all other words keep theirs. -/
theorem copyMetadata_moves_entries {primaryEntries : Nat} {policy : InstallPolicy}
    (hc : Trie.create host primaryEntries policy = .ok t) (rs : List Request) (dest src len : Word) :
    let before := t.after rs
    let words := movedWords src len
    (∀ n, (before.copyMetadata dest src len).1 = .ok n →
      n = words ∧
      (∀ i < n, (wordAt dest i).toNat = dest.toNat + 8 * i ∧
        (wordAt src i).toNat = src.toNat + 8 * i ∧
        (before.copyMetadata dest src len).2.load (wordAt dest i) = before.load (wordAt src i)) ∧
      ∀ a, (∀ i < n, wordOf a ≠ wordOf dest + i) →
        (before.copyMetadata dest src len).2.load a = before.load a) ∧
    (words = 0 ∨ lastWord src words < 2 ^ 64 ∧ lastWord dest words < 2 ^ 64 ∧
        lastWord dest words / segmentBytes < before.primary.len ∧
        before.tables.size + words ≤ tableLimit →
      (before.copyMetadata dest src len).1 = .ok words) := by
  intro before words
  have ht : before.Trimmed := trimmed_after (trimmed_create hc) rs
  obtain ⟨lo, hi, hm, hall⟩ := Moved.copyMetadata ht dest src len
  refine ⟨fun n hn => ?_, copyMetadata_succeeds⟩
  · obtain ⟨rfl, rfl, hwords, hfit⟩ := hall n hn
    refine ⟨hwords, fun i hi => ?_, fun a ha => ?_⟩
    · obtain ⟨hsrc, hdest⟩ := hfit (Nat.zero_lt_of_lt hi)
      rw [lastWord] at hsrc hdest
      rw [load_eq_word, load_eq_word, wordOf_wordAt (by omega), wordOf_wordAt (by omega)]
      exact ⟨toNat_wordAt (by omega), toNat_wordAt (by omega), hm.moved i (Nat.zero_le i) hi⟩
    · rw [load_eq_word, load_eq_word]
      exact hm.same _ fun i _ hi => ha i hi

/-- The two ranges overlap across a segment boundary, the destination is not aligned, and its last
word lies in a segment that nothing was stored in. -/
theorem copyMetadata_moves_entries_across :
    ∃ t : Trie .combined, Trie.create .standard 4 .lazy = .ok t ∧
      let before := t.after [.store 0x1fffff0 ⟨1, 2, 3, 4⟩, .store 0x1fffff8 ⟨5, 6, 7, 8⟩]
      (before.copyMetadata 0x1fffffb 0x1fffff0 16).1 = .ok 2 ∧
      (before.copyMetadata 0x1fffffb 0x1fffff0 16).2.load 0x1fffffb = ⟨1, 2, 3, 4⟩ ∧
      (before.copyMetadata 0x1fffffb 0x1fffff0 16).2.load 0x2000003 = ⟨5, 6, 7, 8⟩ ∧
      (before.copyMetadata 0x1fffffb 0x1fffff0 16).2.load 0x1fffff0 = ⟨1, 2, 3, 4⟩ := by
  obtain ⟨t, hc, hlen, hsize, hfirst, hsecond⟩ : ∃ t : Trie .combined,
      Trie.create .standard 4 .lazy = .ok t ∧
      (t.after [.store 0x1fffff0 ⟨1, 2, 3, 4⟩, .store 0x1fffff8 ⟨5, 6, 7, 8⟩]).primary.len = 4 ∧
      (t.after [.store 0x1fffff0 ⟨1, 2, 3, 4⟩, .store 0x1fffff8 ⟨5, 6, 7, 8⟩]).tables.size = 1 ∧
      (t.after [.store 0x1fffff0 ⟨1, 2, 3, 4⟩, .store 0x1fffff8 ⟨5, 6, 7, 8⟩]).load 0x1fffff0
        = ⟨1, 2, 3, 4⟩ ∧
      (t.after [.store 0x1fffff0 ⟨1, 2, 3, 4⟩, .store 0x1fffff8 ⟨5, 6, 7, 8⟩]).load 0x1fffff8
        = ⟨5, 6, 7, 8⟩ :=
    ⟨_, rfl, rfl, rfl, rfl, rfl⟩
  obtain ⟨hmoves, hsucceeds⟩ := copyMetadata_moves_entries hc
    [.store 0x1fffff0 ⟨1, 2, 3, 4⟩, .store 0x1fffff8 ⟨5, 6, 7, 8⟩] 0x1fffffb 0x1fffff0 16
  have hok := hsucceeds (Or.inr ⟨by decide, by decide, by rw [hlen]; decide, by rw [hsize]; decide⟩)
  obtain ⟨_, hmoved, hsame⟩ := hmoves 2 hok
  refine ⟨t, hc, hok, ?_, ?_, ?_⟩
  · exact (hmoved 0 (by decide)).2.2.trans hfirst
  · exact (hmoved 1 (by decide)).2.2.trans hsecond
  · refine (hsame 0x1fffff0 fun i hi heq => ?_).trans hfirst
    have hword : (0x3ffffe : Nat) = 0x3fffff + i := heq
    omega

end PointerGuard.Trie
