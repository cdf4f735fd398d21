import PointerGuard.Config
import PointerGuard.Metadata
import PointerGuard.Table
import PointerGuard.Text.Record
import PointerGuard.Violation

namespace PointerGuard

/-- The most secondary tables that 32-bit slots can number. -/
def tableLimit : Nat := 1 <<< 32 - 1

/-- Metadata by address, in one secondary table for each segment. The primary table holds the
number of a segment's table, counted from one, or zero. -/
structure Trie (mode : Mode) where
  /-- The host that maps the secondary tables. -/
  host : Host
  policy : InstallPolicy
  primary : Table Nat
  tables : Array (Table Metadata) := #[]

def segmentOf (addr : Word) : Nat := addr.toNat / segmentBytes

/-- The place of an address's word in its segment's secondary table. -/
def cellOf (addr : Word) : Nat := addr.toNat / 8 % segmentWords

namespace Trie

variable {mode : Mode}

def create (host : Host) (primaryEntries : Nat) (policy : InstallPolicy) :
    Except Violation (Trie mode) :=
  match Table.reserve host .primary primaryEntries 4 with
  | .ok (_, primary) => .ok { host, policy, primary }
  | .error _ => .error (.exhausted .primaryTable)

/-- The place of a segment's secondary table in the list of installed tables. -/
def tableOf (t : Trie mode) (segment : Nat) : Option Nat :=
  if segment < t.primary.len ∧ t.primary.get segment ≠ 0 then some (t.primary.get segment - 1)
  else none

def isInstalled (t : Trie mode) (addr : Word) : Bool := (t.tableOf (segmentOf addr)).isSome

/-- The place of a segment's table, which is installed if it is missing. -/
def install (t : Trie mode) (segment : Nat) : Except Violation (Nat × Trie mode) :=
  match t.tableOf segment with
  | some i => .ok (i, t)
  | none =>
    if t.primary.len ≤ segment then
      .error (.untrackableAddress (.ofNat (segment * segmentBytes)))
    else if tableLimit ≤ t.tables.size then .error (.exhausted .secondaryTable)
    else
      match Table.reserve t.host .secondary segmentWords (8 * mode.fields) with
      | .error _ => .error (.exhausted .secondaryTable)
      | .ok (_, table) =>
        .ok (t.tables.size,
          { t with
            primary := t.primary.set segment (t.tables.size + 1)
            tables := t.tables.push table })

/-- A table of the list; a place beyond the list holds an empty table. -/
def tableAt (t : Trie mode) (i : Nat) : Table Metadata := t.tables.getD i { len := 0 }

def setTable (t : Trie mode) (i : Nat) (table : Table Metadata) : Trie mode :=
  { t with tables := t.tables.setIfInBounds i table }

/-- The entry of the pointer stored at `addr`; zero where nothing was stored and where the primary
table does not reach. -/
def load (t : Trie mode) (addr : Word) : Metadata :=
  match t.tableOf (segmentOf addr) with
  | some i => (t.tableAt i).get (cellOf addr)
  | none => .unknown

/-- Records the entry of the pointer stored at `addr`. -/
def store (t : Trie mode) (addr : Word) (e : Metadata) : Except Violation (Trie mode) :=
  match t.install (segmentOf addr) with
  | .error v => .error (v.blame addr)
  | .ok (i, t) => .ok (t.setTable i ((t.tableAt i).set (cellOf addr) (mode.keep e)))

/-- Installs segments one after the other, up to the first that cannot be installed. -/
def installAll (t : Trie mode) : List Nat → Except Violation Unit × Trie mode
  | [] => (.ok (), t)
  | segment :: segments =>
    match t.install segment with
    | .error v => (.error v, t)
    | .ok (_, t) => t.installAll segments

/-- A segment, the one below it, and the one above it, as far as the primary table goes. -/
def neighbours (t : Trie mode) (segment : Nat) : List Nat :=
  segment :: (if segment = 0 then [] else [segment - 1]) ++
    if segment + 1 < t.primary.len then [segment + 1] else []

/-- Under the eager policy, installs the segment of `addr` and its neighbours. -/
def preallocate (t : Trie mode) (addr : Word) : Except Violation Unit × Trie mode :=
  match t.policy with
  | .lazy => (.ok (), t)
  | .eager =>
    if t.primary.len ≤ segmentOf addr then (.error (.untrackableAddress addr), t)
    else t.installAll (t.neighbours (segmentOf addr))

/-- The last segment that `[start, start + len)` meets; the range stops at the largest word. -/
def lastSegment (start len : Word) : Nat :=
  min (start.toNat + (len.toNat - 1)) (1 <<< 64 - 1) / segmentBytes

/-- Under the eager policy, installs every segment that `[start, start + len)` meets. -/
def preallocateRange (t : Trie mode) (start len : Word) : Except Violation Unit × Trie mode :=
  match t.policy with
  | .lazy => (.ok (), t)
  | .eager =>
    if len = 0 then (.ok (), t)
    else if t.primary.len ≤ lastSegment start len then
      (.error (.untrackableAddress (.ofNat (lastSegment start len * segmentBytes))), t)
    else
      t.installAll
        (List.range' (segmentOf start) (lastSegment start len + 1 - segmentOf start))

def describe (t : Trie mode) : String :=
  recordText "MetadataTrie"
    [("mode", quotedText mode.name), ("primary_entries", toString t.primary.len),
     ("installed_tables", toString t.tables.size), ("policy", t.policy.name)]

end Trie

end PointerGuard
