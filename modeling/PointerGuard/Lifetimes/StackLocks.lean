import PointerGuard.Config
import PointerGuard.Table
import PointerGuard.Violation

namespace PointerGuard

/-- The arena of stack locks under the per-call policy. The cells below `top` are in use. -/
structure LockStack where
  base : Word
  cells : Table Word
  top : Nat := 0

/-- The locks of stack objects. Under the shared policy they all have the global lock. -/
inductive StackLocks where
  | perCall (stack : LockStack)
  | shared

namespace LockStack

def create (host : Host) (capacity : Nat) : Except Violation LockStack :=
  match Table.reserve host .stackLocks capacity 8 with
  | .ok (base, cells) => .ok { base, cells }
  | .error _ => .error (.exhausted .stackLockArena)

def extent (s : LockStack) : Extent := ⟨s.base, 8, s.cells.len⟩

/-- Writes `key` to the cell at the top. -/
def give (s : LockStack) (key : Word) : LockStack :=
  { s with cells := s.cells.set s.top key, top := s.top + 1 }

/-- Zeroes the newest cell in use. -/
def takeBack (s : LockStack) : LockStack :=
  { s with cells := s.cells.set (s.top - 1) 0, top := s.top - 1 }

/-- Gives the next cell to `key` and answers the cell's address. -/
def push (s : LockStack) (key : Word) : Except Violation (Word × LockStack) :=
  if s.top = s.cells.len then .error (.exhausted .stackLockArena)
  else .ok (s.extent.addrOf s.top, s.give key)

/-- Releases the newest cell in use, which has to hold `key`. -/
def pop (s : LockStack) (key : Word) : Except Violation LockStack :=
  if s.top = 0 then .error (.stackLockOrder key 0)
  else if s.cells.get (s.top - 1) = key then .ok s.takeBack
  else .error (.stackLockOrder key (s.cells.get (s.top - 1)))

def observe (s : LockStack) (lock : Word) : Option Word := (s.extent.indexOf lock).map s.cells.get

end LockStack

namespace StackLocks

def policy : StackLocks → StackLockPolicy
  | perCall _ => .perCall
  | shared => .shared

def observe : StackLocks → Word → Option Word
  | perCall stack, lock => stack.observe lock
  | shared, _ => none

end StackLocks

end PointerGuard
