import PointerGuard.Guard.Checks
import PointerGuard.Guard.Frames
import PointerGuard.Guard.Objects

namespace PointerGuard

inductive Operation where
  | storeMetadata (addr : Word) (entry : Metadata)
  | loadMetadata (addr : Word)
  | copyMetadata (dest src len : Word)
  | preallocate (addr : Word)
  | preallocateRange (start len : Word)
  | storeLane (vector : Word) (index : Nat) (entry : Metadata)
  | loadLane (vector : Word) (index : Nat)
  | registerStrings (vector : Word) (strings : List (Word × Word))
  | attachProxy (addr proxy : Word)
  | attachedProxy (addr : Word)
  | pushFrame (slots : Nat)
  | popFrame
  | loadSlot (slot : Nat)
  | storeSlot (slot : Nat) (entry : Metadata)
  | propagateSlot (source target : Nat)
  | storeReturn (entry : Metadata)
  | storeNullReturn
  | openProxy (slot : Nat)
  | nextVariadic (proxy : Word)
  | copyProxy (proxy : Word)
  | closeProxy (proxy : Word)
  | storeProxySlot (slot : Nat) (proxy : Word)
  | loadProxySlot (slot : Nat)
  | allocate (ptr : Word)
  | allocateObject (ptr size : Word)
  | deallocate (ptr key lock : Word)
  | relocate (old new key : Word)
  | stackAllocate
  | stackDeallocate (key : Word)
  | checkSpatial (ptr width base bound : Word)
  | checkTemporal (key lock : Word)
  | checkDereference (ptr width : Word) (entry : Metadata)
  | checkDereferenceVia (witness ptr width : Word)
  | checkCall (ptr : Word) (entry : Metadata)
  | checkCopy (dest src len : Word) (destEntry srcEntry : Metadata)
  | checkFill (dest len : Word) (entry : Metadata)
  | introspect (ptr : Word) (entry : Metadata) (slot : Option Nat)
  | globalLock
  | wideMetadata
  | stackLockPolicy
  | isInstalled (addr : Word)
  | snapshot
  | describe
deriving DecidableEq, Repr

inductive Answer where
  | done
  | word (w : Word)
  | count (n : Nat)
  | flag (b : Bool)
  | lease (l : Lease)
  | entry (e : Metadata)
  | stackLockPolicy (p : StackLockPolicy)
  | introspection (i : Introspection)
  | snapshot (s : Snapshot)
  | text (t : String)
deriving DecidableEq, Repr

namespace Guard

variable {mode : Mode}

/-- A step that answers nothing. -/
def quiet (act : Guarded mode Unit) : Guarded mode Answer := do
  act
  return .done

def perform : Operation → Guarded mode Answer
  | .storeMetadata addr e => quiet (storeMetadata addr e)
  | .loadMetadata addr => return .entry (← loadMetadata addr)
  | .copyMetadata dest src len => return .count (← copyMetadata dest src len)
  | .preallocate addr => quiet (preallocate addr)
  | .preallocateRange start len => quiet (preallocateRange start len)
  | .storeLane vector index e => quiet (storeLane vector index e)
  | .loadLane vector index => return .entry (← loadLane vector index)
  | .registerStrings vector strings => return .entry (← registerStrings vector strings)
  | .attachProxy addr proxy => quiet (attachProxy addr proxy)
  | .attachedProxy addr => return .word (← attachedProxy addr)
  | .pushFrame slots => quiet (pushFrame slots)
  | .popFrame => quiet popFrame
  | .loadSlot slot => return .entry (← loadSlot slot)
  | .storeSlot slot e => quiet (storeSlot slot e)
  | .propagateSlot source target => quiet (propagateSlot source target)
  | .storeReturn e => quiet (storeReturn e)
  | .storeNullReturn => quiet storeNullReturn
  | .openProxy slot => return .word (← openProxy slot)
  | .nextVariadic proxy => return .entry (← nextVariadic proxy)
  | .copyProxy proxy => return .word (← copyProxy proxy)
  | .closeProxy proxy => quiet (closeProxy proxy)
  | .storeProxySlot slot proxy => quiet (storeProxySlot slot proxy)
  | .loadProxySlot slot => return .word (← loadProxySlot slot)
  | .allocate ptr => return .lease (← allocate ptr)
  | .allocateObject ptr size => return .entry (← allocateObject ptr size)
  | .deallocate ptr key lock => quiet (deallocate ptr key lock)
  | .relocate old new key => quiet (relocate old new key)
  | .stackAllocate => return .lease (← stackAllocate)
  | .stackDeallocate key => quiet (stackDeallocate key)
  | .checkSpatial ptr width base bound => quiet (checkSpatial ptr width base bound)
  | .checkTemporal key lock => quiet (checkTemporal key lock)
  | .checkDereference ptr width e => quiet (checkDereference ptr width e)
  | .checkDereferenceVia witness ptr width => quiet (checkDereferenceVia witness ptr width)
  | .checkCall ptr e => quiet (checkCall ptr e)
  | .checkCopy dest src len destEntry srcEntry => quiet (checkCopy dest src len destEntry srcEntry)
  | .checkFill dest len e => quiet (checkFill dest len e)
  | .introspect ptr e slot => .read fun g => .introspection (g.introspect ptr e slot)
  | .globalLock => .read fun g => .word g.globalLock
  | .wideMetadata => .read fun g => .entry g.wideMetadata
  | .stackLockPolicy => .read fun g => .stackLockPolicy g.config.stackLockPolicy
  | .isInstalled addr => .read fun g => .flag (g.trie.isInstalled addr)
  | .snapshot => .read fun g => .snapshot g.snapshot
  | .describe => .read fun g => .text g.describe

/-- The guard after a list of operations, whether they succeed or not. -/
def after (g : Guard mode) (ops : List Operation) : Guard mode :=
  ops.foldl (fun g op => ((perform op).run g).2) g

end Guard

end PointerGuard
