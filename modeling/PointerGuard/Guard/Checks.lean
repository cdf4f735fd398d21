import PointerGuard.Guard.Pointers

namespace PointerGuard

structure Introspection where
  mode : Mode
  ptr : Word
  /-- The metadata as the mode stores it. -/
  entry : Metadata
  /-- Whether one byte at the pointer is in bounds, where bounds are tracked. -/
  inBounds : Option Bool
  /-- What the lock cell holds, where lifetimes are tracked and the lock is a lock cell. -/
  lockHolds : Option Word
  /-- Whether the lock cell holds the key, where lifetimes are tracked. -/
  alive : Option Bool
  /-- The slot that was asked for, if the current frame has it. -/
  slot : Option Metadata
deriving DecidableEq, Repr

/-- Nothing speaks against an access. -/
def Introspection.isValid (i : Introspection) : Bool :=
  i.inBounds ≠ some false ∧ i.alive ≠ some false

namespace Guard

variable {mode : Mode}

def checkSpatial (ptr width base bound : Word) : Guarded mode Unit := do
  count .checks
  Action.ask fun g => spatialCheck g.config.leniency ptr width base bound

def checkTemporal (key lock : Word) : Guarded mode Unit := do
  count .checks
  Action.ask fun g =>
    if lock = 0 ∧ g.config.leniency.ignoreMissing then .ok ()
    else
      match g.lifetimes with
      | none => .ok ()
      | some l => l.check key lock

/-- Every check that the mode carries, for an access of `width` bytes at `ptr`. -/
def checkDereference (ptr width : Word) (e : Metadata) : Guarded mode Unit := do
  if mode.tracksBounds then checkSpatial ptr width e.base e.bound
  if mode.tracksLifetime then checkTemporal e.key e.lock

/-- Checks an access through a pointer that was loaded from `witness`. -/
def checkDereferenceVia (witness ptr width : Word) : Guarded mode Unit := do
  let e ← loadMetadata witness
  checkDereference ptr width e

def checkCall (ptr : Word) (e : Metadata) : Guarded mode Unit := do
  count .checks
  if mode.tracksBounds then
    Action.ask fun g => callCheck g.config.leniency ptr e.base e.bound

/-- Checks a copy of `len` bytes: the destination first, then the source. -/
def checkCopy (dest src len : Word) (destEntry srcEntry : Metadata) : Guarded mode Unit := do
  checkDereference dest len destEntry
  checkDereference src len srcEntry

def checkFill (dest len : Word) (e : Metadata) : Guarded mode Unit := checkDereference dest len e

def introspect (g : Guard mode) (ptr : Word) (e : Metadata) (slot : Option Nat) : Introspection :=
  let entry := mode.keep e
  let lockHolds := g.lifetimes.bind (·.cell? entry.lock)
  { mode, ptr, entry, lockHolds
    inBounds :=
      if mode.tracksBounds then
        some (spatialCheck g.config.leniency ptr 1 entry.base entry.bound).isOk
      else none
    alive := if mode.tracksLifetime then some (lockHolds = some entry.key) else none
    slot := slot.bind fun i => (g.shadow.loadSlot i).toOption }

end Guard

end PointerGuard
