import PointerGuard.Metadata
import PointerGuard.Table
import PointerGuard.Text.Record
import PointerGuard.Violation

namespace PointerGuard

/-- The words from `next` up to `stop`, consecutive slots of one frame. -/
structure SlotSpan where
  next : Nat
  stop : Nat
deriving DecidableEq, Repr

/-- Frames of metadata slots, one after the other. A frame starts with two words, the size of the
frame below and its own; its slot 0 is for the result of the call. A pop clears nothing. -/
structure ShadowStack (mode : Mode) where
  words : Table Word
  /-- The first word of the current frame's header. -/
  ptr : Nat := 0
  depth : Nat := 0

namespace ShadowStack

variable {mode : Mode}

def create (host : Host) (capacity : Nat) : Except Violation (ShadowStack mode) :=
  match Table.reserve host .shadowStack (max 2 capacity) 8 with
  | .ok (_, words) => .ok { words }
  | .error _ => .error (.exhausted .shadowStack)

/-- Words of the current frame's slots. -/
def frameSize (s : ShadowStack mode) : Nat := (s.words.get (s.ptr + 1)).toNat

/-- The word where the current frame ends. -/
def frameEnd (s : ShadowStack mode) : Nat := s.ptr + 2 + s.frameSize

def frameSlots (s : ShadowStack mode) : Nat := s.frameSize / mode.fields

def push (s : ShadowStack mode) (slots : Nat) : Except Violation (ShadowStack mode) :=
  let size := slots * mode.fields
  let next := s.frameEnd
  if s.words.len < next + 2 + size then .error (.exhausted .shadowStack)
  else
    .ok { words := (s.words.set next (.ofNat s.frameSize)).set (next + 1) (.ofNat size)
          ptr := next
          depth := s.depth + 1 }

def pop (s : ShadowStack mode) : Except Violation (ShadowStack mode) :=
  if s.depth = 0 then .error .shadowStackUnderflow
  else .ok { s with ptr := s.ptr - ((s.words.get s.ptr).toNat + 2), depth := s.depth - 1 }

/-- The first word of a slot of the current frame. -/
def slotOffset (s : ShadowStack mode) (slot : Nat) : Except Violation Nat :=
  if slot < s.frameSlots then .ok (s.ptr + 2 + slot * mode.fields)
  else .error (.slotOutsideFrame slot s.frameSlots)

def loadSlot (s : ShadowStack mode) (slot : Nat) : Except Violation Metadata :=
  match s.slotOffset slot with
  | .error v => .error v
  | .ok i => .ok (mode.decode (s.words.slice i mode.fields))

def storeSlot (s : ShadowStack mode) (slot : Nat) (e : Metadata) :
    Except Violation (ShadowStack mode) :=
  match s.slotOffset slot with
  | .error v => .error v
  | .ok i => .ok { s with words := s.words.setSlice i (mode.encode e) }

def propagate (s : ShadowStack mode) (source target : Nat) : Except Violation (ShadowStack mode) :=
  match s.loadSlot source with
  | .error v => .error v
  | .ok e => s.storeSlot target e

/-- The slots of the current frame from `slot` on, which may be none. -/
def slotSpan (s : ShadowStack mode) (slot : Nat) : Except Violation SlotSpan :=
  if s.frameSlots < slot then .error (.slotOutsideFrame slot s.frameSlots)
  else .ok ⟨s.ptr + 2 + slot * mode.fields, s.frameEnd⟩

/-- The first entry of a span; `none` once the span is used up, or reaches beyond the stack because
its frame was popped. -/
def readSpan (s : ShadowStack mode) (span : SlotSpan) : Option Metadata :=
  if span.next < 2 ∨ span.stop < span.next + mode.fields ∨ s.frameEnd < span.stop then none
  else some (mode.decode (s.words.slice span.next mode.fields))

def describe (s : ShadowStack mode) : String :=
  recordText "ShadowStack"
    [("capacity", toString s.words.len), ("ptr", toString s.ptr), ("depth", toString s.depth)]

end ShadowStack

end PointerGuard
