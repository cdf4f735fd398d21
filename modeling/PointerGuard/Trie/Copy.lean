import PointerGuard.Trie.Basic

namespace PointerGuard.Trie

variable {mode : Mode}

def wordAt (addr : Word) (i : Nat) : Word := addr + .ofNat (8 * i)

/-- Copies one entry. A zero entry installs no table. -/
def copyWord (t : Trie mode) (dest src : Word) : Except Violation (Trie mode) :=
  if t.load src = 0 ∧ t.isInstalled dest = false then .ok t else t.store dest (t.load src)

/-- Copies `n` entries upward, from the `i`-th on. -/
def copyUp (t : Trie mode) (dest src : Word) (i : Nat) : Nat → Except Violation Unit × Trie mode
  | 0 => (.ok (), t)
  | n + 1 =>
    match t.copyWord (wordAt dest i) (wordAt src i) with
    | .error v => (.error v, t)
    | .ok t => t.copyUp dest src (i + 1) n

/-- Copies the first `n` entries downward. -/
def copyDown (t : Trie mode) (dest src : Word) : Nat → Except Violation Unit × Trie mode
  | 0 => (.ok (), t)
  | n + 1 =>
    match t.copyWord (wordAt dest n) (wordAt src n) with
    | .error v => (.error v, t)
    | .ok t => t.copyDown dest src n

/-- Copies `n` entries word by word, in the direction in which an overlap does no harm. -/
def copyWords (t : Trie mode) (dest src : Word) (n : Nat) : Except Violation Unit × Trie mode :=
  if src < dest then t.copyDown dest src n else t.copyUp dest src 0 n

/-- Copies `n` entries when each range lies inside one segment. -/
def copySlice (t : Trie mode) (dest src : Word) (n : Nat) : Except Violation (Trie mode) :=
  match t.tableOf (segmentOf src) with
  | none =>
    match t.tableOf (segmentOf dest) with
    | none => .ok t
    | some i => .ok (t.setTable i ((t.tableAt i).clear (cellOf dest) n))
  | some j =>
    match t.install (segmentOf dest) with
    | .error _ => .error (.untrackableAddress dest)
    | .ok (i, t) =>
      .ok (t.setTable i ((t.tableAt i).copyFrom (t.tableAt j) (cellOf dest) (cellOf src) n))

/-- The address of the last of `n` words, in `Nat`, so that an end beyond the words shows. -/
def lastWord (addr : Word) (n : Nat) : Nat := addr.toNat + 8 * (n - 1)

/-- The `n` words from `addr` on lie in one segment. -/
def InOneSegment (addr : Word) (n : Nat) : Prop :=
  segmentOf addr = lastWord addr n / segmentBytes

instance (addr : Word) (n : Nat) : Decidable (InOneSegment addr n) :=
  inferInstanceAs (Decidable (_ = _))

/-- Copies the entries of the whole words among `len` bytes at `src` to `dest` and answers their
number. A source that is not aligned holds no pointers. -/
def copyMetadata (t : Trie mode) (dest src len : Word) : Except Violation Nat × Trie mode :=
  let n := len.toNat / 8
  if src.toNat % 8 ≠ 0 ∨ n = 0 then (.ok 0, t)
  else if 1 <<< 64 ≤ lastWord src n then (.error (.untrackableAddress src), t)
  else if 1 <<< 64 ≤ lastWord dest n then (.error (.untrackableAddress dest), t)
  else if InOneSegment src n ∧ InOneSegment dest n then
    match t.copySlice dest src n with
    | .error v => (.error v, t)
    | .ok t => (.ok n, t)
  else
    match t.copyWords dest src n with
    | (.error v, t) => (.error v, t)
    | (.ok (), t) => (.ok n, t)

end PointerGuard.Trie
