import PointerGuard.Session.Basic

namespace PointerGuard

inductive Field where
  | base
  | bound
  | key
  | lock
deriving DecidableEq, Repr

namespace Metadata

def get (e : Metadata) : Field → Word
  | .base => e.base
  | .bound => e.bound
  | .key => e.key
  | .lock => e.lock

def put (e : Metadata) (w : Word) : Field → Metadata
  | .base => { e with base := w }
  | .bound => { e with bound := w }
  | .key => { e with key := w }
  | .lock => { e with lock := w }

end Metadata

inductive Call where
  | init
  | storeMetadata (addr : Word) (entry : Metadata)
  | loadMetadata (addr : Word)
  | loadField (field : Field) (addr : Word)
  | storeLane (vector : Word) (index : Int) (entry : Metadata)
  | loadLane (vector : Word) (index : Int)
  | copyMetadata (dest src size : Word)
  | preallocate (addr : Word)
  | preallocateRange (start size : Word)
  | pushFrame (slots : Int)
  | popFrame
  | loadSlotField (field : Field) (slot : Int)
  | storeSlotField (field : Field) (slot : Int) (value : Word)
  | storeSlot (slot : Int) (entry : Metadata)
  | propagateSlot (source target : Int)
  | storeNullReturn
  | storeReturn (entry : Metadata)
  | openProxy (slot : Int)
  | copyProxy (proxy : Word)
  | closeProxy (proxy : Word)
  | nextVariadic (proxy : Word)
  | storeProxySlot (slot : Int) (proxy : Word)
  | loadProxySlot (slot : Int)
  | attachProxy (addr proxy : Word)
  | attachedProxy (addr : Word)
  | allocate (ptr : Word)
  | deallocate (ptr key lock : Word)
  | stackAllocate
  | stackDeallocate (key : Word)
  | globalLock
  | checkSpatial (ptr width base bound : Word)
  | checkCall (ptr base bound : Word)
  | checkTemporal (key lock : Word)
  | checkCopy (dest src size : Word) (destEntry srcEntry : Metadata)
  | checkFill (dest size : Word) (entry : Metadata)
  | shrinkBounds (new old : Word × Word)
  | introspect (ptr : Word) (entry : Metadata) (slot : Int)
  | malloc (size result : Word)
  | calloc (count size result : Word)
  | realloc (ptr size result : Word)
  | free (ptr : Word)
  | copyBytes (dest src size : Word)
  | fillBytes (dest size : Word)
  | registerArguments (vector : Word) (strings : List (Word × Word))
  | registerEnvironment (holder vector : Word) (strings : List (Word × Word))
deriving DecidableEq, Repr

inductive Reply where
  | void
  | word (w : Word)
  | flag (b : Bool)
  | lease (l : Lease)
  | bounds (base bound : Word)
  | entry (e : Metadata)
  /-- Whether the block was handed on to be freed. -/
  | freed (handedOn : Bool)
deriving DecidableEq, Repr

namespace Session

/-- A slot or lane number; a negative one becomes a number that no frame has. -/
def slotNumber (n : Int) : Nat := if n < 0 then 1 <<< 64 - 1 else n.toNat

def loadSlot (slot : Int) : InSession Metadata := withGuard (Guard.loadSlot (slotNumber slot))

def storeSlotField (field : Field) (slot : Int) (value : Word) : InSession Unit :=
  withGuard do
    let e ← Guard.loadSlot (slotNumber slot)
    Guard.storeSlot (slotNumber slot) (e.put value field)

/-- Registers a fresh block and puts its metadata into the return slot. -/
def publish (block size : Word) : InSession Unit :=
  withGuard do
    if block = 0 then Guard.storeNullReturn
    else
      let e ← Guard.allocateObject block size
      Guard.storeReturn e

def malloc (size result : Word) : InSession Word := do
  publish result size
  return result

/-- Revokes the lease in slot 1 for the block at `ptr`, and answers whether that succeeded: only
then is the block freed. -/
def free (ptr : Word) : InSession Bool :=
  if ptr = 0 then pure false
  else
    withGuard do
      let e ← Guard.loadSlot 1
      Guard.deallocate ptr e.key e.lock
      return true

/-- The bytes of a block that a resize keeps; a block of unknown size counts as resized. -/
def keptBytes (old : Metadata) (size : Word) : Word :=
  let length := saturatingSub old.bound old.base
  if length = 0 then size else min length size

/-- Follows the resize of the block at `ptr`, whose metadata was `old`, to `size` bytes at
`result`. -/
def followResize (ptr size result : Word) (old : Metadata) : Guarded .combined Unit := do
  if result = 0 then
    Guard.storeNullReturn
    if size = 0 then Guard.deallocate ptr old.key old.lock
  else
    if ptr ≠ result then
      Guard.preallocate result
      let _ ← Guard.copyMetadata result ptr (keptBytes old size)
      Guard.relocate ptr result old.key
    Guard.storeReturn ⟨result, saturatingAdd result size, old.key, old.lock⟩

def realloc (ptr size result : Word) : InSession Word :=
  if ptr = 0 then malloc size result
  else do
    let old ← withGuard (Guard.loadSlot 1)
    withGuard (followResize ptr size result old)
    return result

/-- Copies metadata along with bytes; the result is the destination. -/
def copyBytes (dest src size : Word) : InSession Word := do
  withGuard do
    let _ ← Guard.copyMetadata dest src size
    Guard.propagateSlot 1 0
  return dest

/-- The result of a fill is the destination. -/
def fillBytes (dest : Word) : InSession Word := do
  withGuard (Guard.propagateSlot 1 0)
  return dest

/-- Records the strings of the environment, and the vector itself at the address that holds it. -/
def registerEnvironment (holder vector : Word) (strings : List (Word × Word)) : InSession Unit :=
  if vector = 0 then pure ()
  else
    withGuard do
      let e ← Guard.registerStrings vector strings
      Guard.storeMetadata holder e

def quiet (act : InSession Unit) : InSession Reply := do
  act
  return .void

def quietly (act : Guarded .combined Unit) : InSession Reply := quiet (withGuard act)

def answer : Call → InSession Reply
  | .init => return .void
  | .storeMetadata addr e => quietly (Guard.storeMetadata addr e)
  | .loadMetadata addr => return .entry (← withGuard (Guard.loadMetadata addr))
  | .loadField field addr => return .word ((← withGuard (Guard.loadMetadata addr)).get field)
  | .storeLane vector index e => quietly (Guard.storeLane vector (slotNumber index) e)
  | .loadLane vector index =>
    return .entry (← withGuard (Guard.loadLane vector (slotNumber index)))
  | .copyMetadata dest src size => do
    let _ ← withGuard (Guard.copyMetadata dest src size)
    return .void
  | .preallocate addr => quietly (Guard.preallocate addr)
  | .preallocateRange start size => quietly (Guard.preallocateRange start size)
  | .pushFrame slots => quietly (Guard.pushFrame slots.toNat)
  | .popFrame => quietly Guard.popFrame
  | .loadSlotField field slot => return .word ((← loadSlot slot).get field)
  | .storeSlotField field slot value => quiet (storeSlotField field slot value)
  | .storeSlot slot e => quietly (Guard.storeSlot (slotNumber slot) e)
  | .propagateSlot source target =>
    quietly (Guard.propagateSlot (slotNumber source) (slotNumber target))
  | .storeNullReturn => quietly Guard.storeNullReturn
  | .storeReturn e => quietly (Guard.storeReturn e)
  | .openProxy slot => return .word (← withGuard (Guard.openProxy (slotNumber slot)))
  | .copyProxy proxy => return .word (← withGuard (Guard.copyProxy proxy))
  | .closeProxy proxy => quietly (Guard.closeProxy proxy)
  | .nextVariadic proxy => return .entry (← withGuard (Guard.nextVariadic proxy))
  | .storeProxySlot slot proxy => quietly (Guard.storeProxySlot (slotNumber slot) proxy)
  | .loadProxySlot slot => return .word (← withGuard (Guard.loadProxySlot (slotNumber slot)))
  | .attachProxy addr proxy => quietly (Guard.attachProxy addr proxy)
  | .attachedProxy addr => return .word (← withGuard (Guard.attachedProxy addr))
  | .allocate ptr => return .lease (← withGuard (Guard.allocate ptr))
  | .deallocate ptr key lock => quietly (Guard.deallocate ptr key lock)
  | .stackAllocate => return .lease (← withGuard Guard.stackAllocate)
  | .stackDeallocate key => quietly (Guard.stackDeallocate key)
  | .globalLock => .read fun s => .word s.guard.globalLock
  | .checkSpatial ptr width base bound => quietly (Guard.checkSpatial ptr width base bound)
  | .checkCall ptr base bound => quietly (Guard.checkCall ptr (.bounds base bound))
  | .checkTemporal key lock => quietly (Guard.checkTemporal key lock)
  | .checkCopy dest src size destEntry srcEntry =>
    quietly (Guard.checkCopy dest src size destEntry srcEntry)
  | .checkFill dest size e => quietly (Guard.checkFill dest size e)
  | .shrinkBounds new old =>
    let common := PointerGuard.shrinkBounds new old
    return .bounds common.1 common.2
  | .introspect ptr e slot =>
    .read fun s =>
      .flag (s.guard.introspect ptr e (if slot < 0 then none else some slot.toNat)).isValid
  | .malloc size result => return .word (← malloc size result)
  | .calloc count size result => return .word (← malloc (saturatingMul count size) result)
  | .realloc ptr size result => return .word (← realloc ptr size result)
  | .free ptr => return .freed (← free ptr)
  | .copyBytes dest src size => return .word (← copyBytes dest src size)
  | .fillBytes dest _ => return .word (← fillBytes dest)
  | .registerArguments vector strings =>
    return .entry (← withGuard (Guard.registerStrings vector strings))
  | .registerEnvironment holder vector strings =>
    quiet (registerEnvironment holder vector strings)

end Session

end PointerGuard
