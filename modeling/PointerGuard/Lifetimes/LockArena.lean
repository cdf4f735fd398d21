import PointerGuard.Config
import PointerGuard.Table
import PointerGuard.Violation

namespace PointerGuard

/-- The arena of heap locks. A cell holds the key of its lease and is cleared when the lease is
revoked; the cells from `bump` on were never given out. -/
structure LockArena where
  base : Word
  cells : Table Word
  /-- For a released cell, the number of the cell released before it. -/
  links : Table Nat
  /-- The cell released last, or `linkEnd`. -/
  freeHead : Nat := linkEnd
  bump : Nat := 0

namespace LockArena

def create (host : Host) (capacity : Nat) : Except Violation LockArena :=
  match Table.reserve host .heapLocks capacity 8, Table.reserve host .lockLinks capacity 4 with
  | .ok (base, cells), .ok (_, links) => .ok { base, cells, links }
  | _, _ => .error (.exhausted .lockArena)

def extent (a : LockArena) : Extent := ⟨a.base, 8, a.cells.len⟩

def indexOf (a : LockArena) (lock : Word) : Option Nat := a.extent.indexOf lock

def addrOf (a : LockArena) (i : Nat) : Word := a.extent.addrOf i

/-- Takes the cell released last, or else one never given out. -/
def acquire (a : LockArena) : Except Violation (Nat × LockArena) :=
  if a.freeHead ≠ linkEnd then .ok (a.freeHead, { a with freeHead := a.links.get a.freeHead })
  else if a.bump = a.cells.len then .error (.exhausted .lockArena)
  else .ok (a.bump, { a with bump := a.bump + 1 })

/-- Zeroes a cell and puts it on the free list. Links are 32 bits wide. -/
def release (a : LockArena) (i : Nat) : LockArena :=
  { a with
    cells := a.cells.set i 0
    links := a.links.set i a.freeHead
    freeHead := i % 1 <<< 32 }

def assign (a : LockArena) (i : Nat) (key : Word) : LockArena :=
  { a with cells := a.cells.set i key }

def observe (a : LockArena) (lock : Word) : Option Word := (a.indexOf lock).map a.cells.get

end LockArena

end PointerGuard
