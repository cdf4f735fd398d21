import PointerGuard.Table
import PointerGuard.Text.Record
import PointerGuard.Violation

namespace PointerGuard

/-- A slot that was never used. -/
def emptySlot : Word := 0

/-- A slot whose address was removed. -/
def tombstone : Word := 0xffffffffffffffff

/-- The two words that stand for no address. -/
def isMarker (w : Word) : Bool := w == emptySlot || w == tombstone

/-- The live heap objects in a table with open addressing. The probe sequence of a key starts at
the key modulo the capacity, and a removal leaves a tombstone. -/
structure FreeMap where
  slots : Table Word
  live : Nat := 0

namespace FreeMap

def create (host : Host) (capacity : Nat) : Except Violation FreeMap :=
  match Table.reserve host .freeMap capacity 8 with
  | .ok (_, slots) => .ok { slots }
  | .error _ => .error (.exhausted .freeMap)

def capacity (m : FreeMap) : Nat := m.slots.len

/-- The `i`-th slot of a key's probe sequence. -/
def probe (m : FreeMap) (key : Word) (i : Nat) : Nat :=
  (key.toNat % m.capacity + i) % m.capacity

/-- The first slot whose word satisfies `stop`, among `n` slots of a key's probe sequence from the
`i`-th on. -/
def search (m : FreeMap) (stop : Word → Bool) (key : Word) (i : Nat) : Nat → Option Nat
  | 0 => none
  | n + 1 =>
    if stop (m.slots.get (m.probe key i)) then some (m.probe key i)
    else m.search stop key (i + 1) n

/-- The slot where a key's probe sequence meets `addr`, before any slot that was never used. -/
def find? (m : FreeMap) (key addr : Word) : Option Nat :=
  if isMarker addr then none
  else
    match m.search (fun w => w == addr || w == emptySlot) key 0 m.capacity with
    | some pos => if m.slots.get pos = addr then some pos else none
    | none => none

def contains (m : FreeMap) (key addr : Word) : Bool := (m.find? key addr).isSome

/-- Records `addr` in the first free slot of the key's probe sequence. -/
def insert (m : FreeMap) (key addr : Word) : Except Violation FreeMap :=
  if isMarker addr then .error (.untrackableAddress addr)
  else
    match m.search isMarker key 0 m.capacity with
    | some pos => .ok { slots := m.slots.set pos addr, live := m.live + 1 }
    | none => .error (.exhausted .freeMap)

/-- Removes the record of `addr` that the key's probe sequence meets first. -/
def remove (m : FreeMap) (key addr : Word) : Except Violation FreeMap :=
  match m.find? key addr with
  | some pos => .ok { slots := m.slots.set pos tombstone, live := m.live - 1 }
  | none => .error (.invalidFree addr key)

def describe (m : FreeMap) : String :=
  recordText "FreeMap" [("capacity", toString m.capacity), ("live", toString m.live)]

end FreeMap

end PointerGuard
