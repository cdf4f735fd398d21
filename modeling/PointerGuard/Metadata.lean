import PointerGuard.Word

namespace PointerGuard

/-- The key of objects that are never released. -/
def globalKey : Word := 1

/-- The first key that a tracked object gets. -/
def firstKey : Word := 2

/-- The upper bound of metadata that permits every access, the largest signed address. -/
def wideBound : Word := 0x7fffffffffffffff

/-- The bounds `[base, bound)` of an object, its key, and the lock cell that holds the key for as
long as the object lives. -/
structure Metadata where
  base : Word := 0
  bound : Word := 0
  key : Word := 0
  lock : Word := 0
deriving DecidableEq, Repr, Inhabited

/-- A key and the address of its lock cell: the right to use one object while it lives. -/
structure Lease where
  key : Word := 0
  lock : Word := 0
deriving DecidableEq, Repr, Inhabited

namespace Metadata

/-- Nothing is known about the pointer. -/
def unknown : Metadata := {}

instance : OfNat Metadata 0 := ⟨unknown⟩

def bounds (base bound : Word) : Metadata := { base, bound }

/-- Metadata that permits every access for as long as the global lock holds its key. -/
def wide (globalLock : Word) : Metadata :=
  { base := 0, bound := wideBound, key := globalKey, lock := globalLock }

end Metadata

/-- Which half of the metadata is tracked. -/
inductive Mode where
  | spatial
  | temporal
  | combined
deriving DecidableEq, Repr, Inhabited

namespace Mode

def name : Mode → String
  | spatial => "spatial"
  | temporal => "temporal"
  | combined => "spatial+temporal"

def tracksBounds : Mode → Bool
  | temporal => false
  | _ => true

def tracksLifetime : Mode → Bool
  | spatial => false
  | _ => true

def fields : Mode → Nat
  | combined => 4
  | _ => 2

/-- The stored words of an entry. -/
def encode : Mode → Metadata → List Word
  | spatial, e => [e.base, e.bound]
  | temporal, e => [e.key, e.lock]
  | combined, e => [e.base, e.bound, e.key, e.lock]

/-- The entry that stored words stand for. -/
def decode : Mode → List Word → Metadata
  | spatial, [base, bound] => { base, bound }
  | temporal, [key, lock] => { key, lock }
  | combined, [base, bound, key, lock] => { base, bound, key, lock }
  | _, _ => .unknown

/-- The part of an entry that the mode stores. -/
def keep (mode : Mode) (e : Metadata) : Metadata := mode.decode (mode.encode e)

/-- The entry whose first stored word is `w` and whose other words are zero. Handles travel in
place of metadata this way. -/
def ofWord : Mode → Word → Metadata
  | temporal, w => { key := w }
  | _, w => { base := w }

def firstWord : Mode → Metadata → Word
  | temporal, e => e.key
  | _, e => e.base

@[simp] theorem length_encode (mode : Mode) (e : Metadata) :
    (mode.encode e).length = mode.fields := by
  cases mode <;> rfl

@[simp] theorem encode_keep (mode : Mode) (e : Metadata) :
    mode.encode (mode.keep e) = mode.encode e := by
  cases mode <;> rfl

@[simp] theorem keep_keep (mode : Mode) (e : Metadata) :
    mode.keep (mode.keep e) = mode.keep e := by
  cases mode <;> rfl

@[simp] theorem keep_unknown (mode : Mode) : mode.keep .unknown = .unknown := by
  cases mode <;> rfl

@[simp] theorem keep_decode (mode : Mode) (ws : List Word) :
    mode.keep (mode.decode ws) = mode.decode ws := by
  unfold decode
  split
  next => rfl
  next => rfl
  next => rfl
  next => exact mode.keep_unknown

@[simp] theorem keep_ofWord (mode : Mode) (w : Word) : mode.keep (mode.ofWord w) = mode.ofWord w := by
  cases mode <;> rfl

@[simp] theorem firstWord_ofWord (mode : Mode) (w : Word) : mode.firstWord (mode.ofWord w) = w := by
  cases mode <;> rfl

theorem fields_pos (mode : Mode) : 0 < mode.fields := by
  cases mode <;> decide

end Mode

end PointerGuard
