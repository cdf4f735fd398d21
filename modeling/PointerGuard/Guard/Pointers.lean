import PointerGuard.Guard.Basic

namespace PointerGuard.Guard

variable {mode : Mode}

/-- Records the metadata of the pointer stored at `addr`. -/
def storeMetadata (addr : Word) (e : Metadata) : Guarded mode Unit := do
  count .metadataStores
  onTrie (.update (·.store addr e))

def loadMetadata (addr : Word) : Guarded mode Metadata := do
  count .metadataLoads
  onTrie (.read (·.load addr))

/-- Copies metadata along with `len` bytes and answers the number of entries. -/
def copyMetadata (dest src len : Word) : Guarded mode Nat := do
  let n ← onTrie (·.copyMetadata dest src len)
  if 0 < n then count .metadataCopies
  return n

def preallocate (addr : Word) : Guarded mode Unit :=
  onTrie (·.preallocate addr)

def preallocateRange (start len : Word) : Guarded mode Unit :=
  onTrie (·.preallocateRange start len)

/-- The address of a lane of the pointer vector at `base`, if it is a word. -/
def laneAddress (base : Word) (index : Nat) : Except Violation Word :=
  if base.toNat + 8 * index < 1 <<< 64 then .ok (base + .ofNat (8 * index))
  else .error (.untrackableAddress base)

def storeLane (vector : Word) (index : Nat) (e : Metadata) : Guarded mode Unit := do
  let lane ← Action.ask fun _ => laneAddress vector index
  storeMetadata lane e

def loadLane (vector : Word) (index : Nat) : Guarded mode Metadata := do
  let lane ← Action.ask fun _ => laneAddress vector index
  loadMetadata lane

/-- The address past a string of `len` bytes and its terminator, if it is a word. -/
def stringBound (start len : Word) : Except Violation Word :=
  if start.toNat + len.toNat + 1 < 1 <<< 64 then .ok (start + len + 1)
  else .error (.untrackableAddress start)

/-- Records bounds for the strings of a vector, given as addresses and lengths, from lane `index`
on. Strings of a vector are never released, so they get the global key. -/
def storeStrings (vector : Word) (index : Nat) : List (Word × Word) → Guarded mode Unit
  | [] => pure ()
  | (start, len) :: rest => do
    let bound ← Action.ask fun _ => stringBound start len
    let lock ← Action.read globalLock
    storeLane vector index ⟨start, bound, globalKey, lock⟩
    storeStrings vector (index + 1) rest

/-- Records bounds for the strings of a null-terminated vector and answers the metadata of the
vector itself, its null entry included. -/
def registerStrings (vector : Word) (strings : List (Word × Word)) : Guarded mode Metadata := do
  storeStrings vector 0 strings
  let bound ← Action.ask fun _ => laneAddress vector (strings.length + 1)
  let lock ← Action.read globalLock
  return mode.keep ⟨vector, bound, globalKey, lock⟩

def attachProxy (addr proxy : Word) : Guarded mode Unit := do
  count .metadataStores
  onTrie (.update (·.store addr (mode.ofWord proxy)))

/-- The proxy attached at `addr`; zero if there is none. -/
def attachedProxy (addr : Word) : Guarded mode Word := do
  count .metadataLoads
  onTrie (.read fun t => mode.firstWord (t.load addr))

end PointerGuard.Guard
