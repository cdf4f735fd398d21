import PointerGuard.Guard.Pointers

namespace PointerGuard.Guard

variable {mode : Mode}

def allocate (ptr : Word) : Guarded mode Lease := do
  preallocate ptr
  count .heapAllocations
  onLifetimes default (·.allocate ptr)

/-- Registers a heap object of `size` bytes at `ptr` and answers its metadata. -/
def allocateObject (ptr size : Word) : Guarded mode Metadata := do
  let lease ← allocate ptr
  let bound ← Action.orFail (.untrackableAddress ptr) (checkedAdd ptr size)
  return mode.keep ⟨ptr, bound, lease.key, lease.lock⟩

def deallocate (ptr key lock : Word) : Guarded mode Unit := do
  onLifetimes () (.update (·.deallocate ptr key lock))
  count .heapDeallocations

/-- Keeps the lease of a heap object that moves from `old` to `new`. -/
def relocate (old new key : Word) : Guarded mode Unit :=
  onLifetimes () (·.relocate old new key)

def stackAllocate : Guarded mode Lease := do
  count .stackAllocations
  onLifetimes default fun l =>
    match l.stackAllocate with
    | .ok (lease, l) => (.ok lease, l)
    | .error v => (.error v, l)

def stackDeallocate (key : Word) : Guarded mode Unit := do
  onLifetimes () (.update (·.stackDeallocate key))
  count .stackDeallocations

end PointerGuard.Guard
