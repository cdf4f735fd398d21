import PointerGuard.FreeMap
import PointerGuard.Lifetimes.LockArena
import PointerGuard.Lifetimes.StackLocks
import PointerGuard.Metadata

namespace PointerGuard

/-- A lock cell by itself. -/
structure LockCell where
  addr : Word
  holds : Word

/-- The leases on heap and stack objects. A lease has a fresh key, and a lock cell that holds the
key until the lease is revoked. The global lock is for objects that are never released. -/
structure Lifetimes where
  nextKey : Word := firstKey
  global : LockCell
  heap : LockArena
  stack : StackLocks
  freeMap : Option FreeMap

namespace Lifetimes

/-- A cell of its own that holds the global key. -/
def createGlobal (host : Host) : Except Violation LockCell :=
  match host.reservation .globalLock 1 8 with
  | .ok addr => .ok { addr, holds := globalKey }
  | .error _ => .error (.exhausted .lockArena)

/-- Fresh lifetimes; `freeMapEntries` of `none` does without a free map. -/
def create (host : Host) (lockEntries : Nat) (policy : StackLockPolicy) (stackLockEntries : Nat)
    (freeMapEntries : Option Nat) : Except Violation Lifetimes := do
  let global ← createGlobal host
  let stack ←
    match policy with
    | .perCall => StackLocks.perCall <$> LockStack.create host stackLockEntries
    | .shared => pure .shared
  let freeMap ←
    match freeMapEntries with
    | some entries => some <$> FreeMap.create host entries
    | none => pure none
  let heap ← LockArena.create host lockEntries
  return { global, heap, stack, freeMap }

def tracked (l : Lifetimes) : Option Nat := l.freeMap.map FreeMap.live

/-- Issues a lease on the heap object at `ptr`. The key is spent even if the free map has no room
for the object. -/
def allocate (l : Lifetimes) (ptr : Word) : Except Violation Lease × Lifetimes :=
  if ptr = 0 then (.error (.untrackableAddress ptr), l)
  else
    match l.heap.acquire with
    | .error v => (.error v, l)
    | .ok (i, heap) =>
      let key := l.nextKey
      let l := { l with nextKey := key + 1 }
      match l.freeMap with
      | none => (.ok ⟨key, heap.addrOf i⟩, { l with heap := heap.assign i key })
      | some map =>
        match map.insert key ptr with
        | .error v => (.error v, { l with heap := heap.release i })
        | .ok map =>
          (.ok ⟨key, heap.addrOf i⟩, { l with heap := heap.assign i key, freeMap := some map })

/-- Revokes the lease of the heap object at `ptr`. -/
def deallocate (l : Lifetimes) (ptr key lock : Word) : Except Violation Lifetimes :=
  match l.heap.indexOf lock with
  | none => .error (.unknownLock key lock)
  | some i =>
    if l.heap.cells.get i ≠ key then .error (.invalidFree ptr key)
    else
      match l.freeMap with
      | none => .ok { l with heap := l.heap.release i }
      | some map =>
        match map.remove key ptr with
        | .error v => .error v
        | .ok map => .ok { l with heap := l.heap.release i, freeMap := some map }

/-- Moves the record of a heap object from `old` to `new`. If `new` cannot be recorded, `old` is
recorded again. -/
def relocate (l : Lifetimes) (old new key : Word) : Except Violation Unit × Lifetimes :=
  match l.freeMap with
  | none => (.ok (), l)
  | some map =>
    match map.remove key old with
    | .error v => (.error v, l)
    | .ok removed =>
      match removed.insert key new with
      | .ok map => (.ok (), { l with freeMap := some map })
      | .error v =>
        match removed.insert key old with
        | .ok map => (.error v, { l with freeMap := some map })
        | .error w => (.error w, { l with freeMap := some removed })

def stackAllocate (l : Lifetimes) : Except Violation (Lease × Lifetimes) :=
  match l.stack with
  | .shared => .ok (⟨globalKey, l.global.addr⟩, l)
  | .perCall stack =>
    match stack.push l.nextKey with
    | .error v => .error v
    | .ok (lock, stack) =>
      .ok (⟨l.nextKey, lock⟩, { l with nextKey := l.nextKey + 1, stack := .perCall stack })

/-- Revokes the newest stack lease, which has to have this key. -/
def stackDeallocate (l : Lifetimes) (key : Word) : Except Violation Lifetimes :=
  match l.stack with
  | .shared => .ok l
  | .perCall stack =>
    match stack.pop key with
    | .error v => .error v
    | .ok stack => .ok { l with stack := .perCall stack }

/-- What the lock cell at an address holds; `none` if there is no lock cell. -/
def cell? (l : Lifetimes) (lock : Word) : Option Word :=
  if lock = l.global.addr then some l.global.holds
  else l.heap.observe lock <|> l.stack.observe lock

/-- What the lock cell of a lease holds. -/
def observe (l : Lifetimes) (key lock : Word) : Except Violation Word :=
  match l.cell? lock with
  | some w => .ok w
  | none => .error (.unknownLock key lock)

/-- A lease passes if its lock cell holds its key. -/
def check (l : Lifetimes) (key lock : Word) : Except Violation Unit :=
  match l.observe key lock with
  | .error v => .error v
  | .ok observed => if observed = key then .ok () else .error (.keyMismatch key lock observed)

def describe (l : Lifetimes) : String :=
  recordText "TemporalAllocator"
    [("next_key", toString l.nextKey.toNat), ("global_lock", hex l.global.addr),
     ("stack_policy", l.stack.policy.name),
     ("free_map", optionText (l.freeMap.map FreeMap.describe))] false

end Lifetimes

end PointerGuard
