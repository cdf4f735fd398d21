import PointerGuard.Word

namespace PointerGuard

/-- The blocks of a heap, each 4 GiB after the one before. A freed block is not used again. -/
structure Blocks where
  /-- The size of every block when it was made. -/
  sizes : Array Nat := #[]
deriving DecidableEq, Repr

namespace Blocks

/-- A request of this many bytes or more is refused. -/
def requestLimit : Nat := 1 <<< 63

def address (k : Nat) : Word := .ofNat (0x500000000000 + k * 0x100000000)

def place (b : Blocks) (size : Nat) : Word × Blocks :=
  (address b.sizes.size, { b with sizes := b.sizes.push size })

/-- The size with which the block at `ptr` was made; zero for any other address. -/
def madeSize (b : Blocks) (ptr : Word) : Nat :=
  let offset := ptr.toNat - (address 0).toNat
  if address 0 ≤ ptr ∧ offset % 0x100000000 = 0 then b.sizes.getD (offset / 0x100000000) 0 else 0

def malloc (b : Blocks) (size : Nat) : Word × Blocks :=
  if requestLimit ≤ size then (0, b) else b.place size

def realloc (b : Blocks) (ptr size : Word) : Word × Blocks :=
  if ptr = 0 then b.malloc size.toNat
  else if size = 0 ∨ requestLimit ≤ size.toNat then (0, b)
  else if size.toNat ≤ b.madeSize ptr then (ptr, b)
  else b.place size.toNat

def placeAll (b : Blocks) : List Nat → List Word × Blocks
  | [] => ([], b)
  | size :: sizes =>
    match b.place size with
    | (addr, b) =>
      match b.placeAll sizes with
      | (addrs, b) => (addr :: addrs, b)

end Blocks

end PointerGuard
