import PointerGuard.Proofs.Machine.Traps
import PointerGuard.Proofs.Proxies.Cursors
import PointerGuard.Proofs.ShadowStack.Simulation

namespace PointerGuard

variable {host : Host}

open Checked

namespace ShadowStack

variable {mode : Mode} {s s' : ShadowStack mode}

/-- Words of the current frame's slots. -/
def frameSizeOrTrap (s : ShadowStack mode) : Checked Nat := do
  let header ← addOrTrap s.ptr 1
  let size ← s.words.getOrTrap header
  .ok size.toNat

def pushOrTrap (s : ShadowStack mode) (slots : Nat) : Checked (ShadowStack mode) := do
  let current ← s.frameSizeOrTrap
  let size ← wordOr (.exhausted .shadowStack) (slots * mode.fields)
  let slotsEnd ← addOrTrap s.ptr current
  let next ← addOrTrap slotsEnd 2
  let first ← addOrTrap next 2
  let stop ← wordOr (.exhausted .shadowStack) (size + first)
  if s.words.len < stop then violation (.exhausted .shadowStack)
  else
    let words ← s.words.setOrTrap next (.ofNat current)
    let header ← addOrTrap next 1
    let words ← words.setOrTrap header (.ofNat size)
    let depth ← addOrTrap s.depth 1
    .ok { words, ptr := next, depth }

def popOrTrap (s : ShadowStack mode) : Checked (ShadowStack mode) :=
  if s.depth = 0 then violation .shadowStackUnderflow
  else do
    let previous ← s.words.getOrTrap s.ptr
    let back ← addOrTrap previous.toNat 2
    let ptr ← subOrTrap s.ptr back
    let depth ← subOrTrap s.depth 1
    .ok { s with ptr, depth }

/-- The first word of a slot of the current frame. -/
def slotOffsetOrTrap (s : ShadowStack mode) (slot : Nat) : Checked Nat := do
  let size ← s.frameSizeOrTrap
  if size / mode.fields ≤ slot then violation (.slotOutsideFrame slot (size / mode.fields))
  else
    let first ← addOrTrap s.ptr 2
    let offset ← mulOrTrap slot mode.fields
    addOrTrap first offset

def loadSlotOrTrap (s : ShadowStack mode) (slot : Nat) : Checked Metadata := do
  let i ← s.slotOffsetOrTrap slot
  let stop ← addOrTrap i mode.fields
  let words ← s.words.rangeOrTrap i stop
  .ok (mode.decode (words.slice i mode.fields))

def storeSlotOrTrap (s : ShadowStack mode) (slot : Nat) (e : Metadata) :
    Checked (ShadowStack mode) := do
  let i ← s.slotOffsetOrTrap slot
  let stop ← addOrTrap i mode.fields
  let words ← s.words.rangeOrTrap i stop
  .ok { s with words := words.setSlice i (mode.encode e) }

def propagateOrTrap (s : ShadowStack mode) (source target : Nat) : Checked (ShadowStack mode) := do
  let e ← s.loadSlotOrTrap source
  s.storeSlotOrTrap target e

/-- The slots of the current frame from `slot` on, which may be none. -/
def slotSpanOrTrap (s : ShadowStack mode) (slot : Nat) : Checked SlotSpan := do
  let size ← s.frameSizeOrTrap
  if size / mode.fields < slot then violation (.slotOutsideFrame slot (size / mode.fields))
  else
    let first ← addOrTrap s.ptr 2
    let offset ← mulOrTrap slot mode.fields
    let next ← addOrTrap first offset
    let stop ← addOrTrap first size
    .ok ⟨next, stop⟩

/-- The first entry of a span. A span may be one of a frame that is gone, so its first word is
tested before it is used. -/
def readSpanOrTrap (s : ShadowStack mode) (span : SlotSpan) : Checked (Option Metadata) := do
  let first ← addOrTrap s.ptr 2
  let size ← s.frameSizeOrTrap
  let liveEnd ← addOrTrap first size
  if 1 <<< 64 ≤ span.next + mode.fields ∨ span.next < 2 ∨ span.stop < span.next + mode.fields ∨
      liveEnd < span.stop then .ok none
  else
    let words ← s.words.rangeOrTrap span.next (span.next + mode.fields)
    .ok (some (mode.decode (words.slice span.next mode.fields)))

theorem two_mul_length_le (mode : Mode) (fs : List (List Metadata)) :
    2 * fs.length ≤ frameWords mode fs := by
  induction fs with
  | nil => exact Nat.le_refl 0
  | cons f fs ih =>
    rw [List.length_cons, frameWords]
    omega

theorem frameSize_div (s : ShadowStack mode) : s.frameSize / mode.fields = s.frameSlots := rfl

/-- A slot of the current frame ends within the frame. -/
theorem slot_le {slot : Nat} (hs : slot < s.frameSlots) :
    slot * mode.fields + mode.fields ≤ s.frameSize := by
  rw [← Nat.succ_mul]
  exact (Nat.mul_le_mul_right _ hs).trans (Nat.div_mul_le_self ..)

/-- The words hold frames up to the current one, and lie in memory. -/
structure Framed (s : ShadowStack mode) : Prop where
  frames : ∃ fs, s.Holds fs
  room : s.words.len * 8 < 1 <<< 64

theorem framed_create {capacity : Nat} (h : ShadowStack.create host capacity = .ok s) : s.Framed := by
  refine ⟨⟨_, (holds_create h).1⟩, ?_⟩
  unfold create at h
  split at h
  next words hr =>
    obtain ⟨rfl, _, hroom, _⟩ := Table.reserve_eq_ok hr
    cases Except.ok.inj h
    exact hroom
  next => cases h

namespace Framed

theorem step (h : s.Framed) (r : Request) : (s.step r).Framed := by
  obtain ⟨fs, hfs⟩ := h.frames
  obtain ⟨fs', hfs', hlen, _⟩ := hfs.serves r
  exact ⟨⟨fs', hfs'⟩, hlen ▸ h.room⟩

theorem push (h : s.Framed) {n : Nat} (hp : s.push n = .ok s') : s'.Framed := by
  have hstep := h.step (.push n)
  rwa [ShadowStack.step, serve, hp] at hstep

theorem pop (h : s.Framed) (hp : s.pop = .ok s') : s'.Framed := by
  have hstep := h.step .pop
  rwa [ShadowStack.step, serve, hp] at hstep

theorem storeSlot (h : s.Framed) {slot : Nat} {e : Metadata} (hp : s.storeSlot slot e = .ok s') :
    s'.Framed := by
  have hstep := h.step (.store slot e)
  rwa [ShadowStack.step, serve, hp] at hstep

theorem propagate (h : s.Framed) {source target : Nat} (hp : s.propagate source target = .ok s') :
    s'.Framed := by
  have hstep := h.step (.propagate source target)
  rwa [ShadowStack.step, serve, hp] at hstep

/-- The current frame ends within the words, and there are fewer frames than words. -/
theorem bounds (h : s.Framed) : s.frameEnd ≤ s.words.len ∧ s.depth < s.words.len ∧
    s.words.len * 8 < 1 <<< 64 := by
  obtain ⟨fs, hfs⟩ := h.frames
  obtain ⟨f, fs, rfl⟩ : ∃ f fs', fs = f :: fs' :=
    List.exists_cons_of_ne_nil (List.ne_nil_of_length_pos (by have := hfs.depth; omega))
  have hcount := two_mul_length_le mode (f :: fs)
  have hdepth := hfs.depth
  have hfits := hfs.fits
  refine ⟨hfs.frameEnd ▸ hfits, by omega, h.room⟩

/-- The frame below has room beneath the current header. -/
theorem below (h : s.Framed) (hd : s.depth ≠ 0) : (s.words.get s.ptr).toNat + 2 ≤ s.ptr := by
  obtain ⟨fs, hfs⟩ := h.frames
  have hdepth := hfs.depth
  obtain ⟨g, f, fs, rfl⟩ : ∃ g f fs', fs = g :: f :: fs' := by
    match fs, hdepth with
    | [_], hdepth => exact absurd (Nat.succ.inj hdepth) hd
    | g :: f :: fs, _ => exact ⟨g, f, fs, rfl⟩
  obtain ⟨_, hprev⟩ := hfs.laid.caller
  have hptr : s.ptr = frameWords mode (f :: fs) := hfs.ptr
  rw [hptr, hprev, frameWords]
  omega

theorem frameSizeOrTrap_eq (h : s.Framed) : s.frameSizeOrTrap = .ok s.frameSize := by
  obtain ⟨hend, _, hroom⟩ := h.bounds
  rw [frameEnd] at hend
  rw [frameSizeOrTrap, addOrTrap_eq (by omega), ok_bind, Table.getOrTrap_eq (by omega), ok_bind,
    frameSize]

theorem pushOrTrap_eq (h : s.Framed) (slots : Nat) : s.pushOrTrap slots = of (s.push slots) := by
  obtain ⟨hend, hdepth, hroom⟩ := h.bounds
  have hnext : s.frameEnd = s.ptr + s.frameSize + 2 := by
    rw [frameEnd]
    omega
  rw [pushOrTrap, h.frameSizeOrTrap_eq, ok_bind, push.eq_def]
  simp only
  by_cases hsize : slots * mode.fields < 1 <<< 64
  · rw [wordOr_eq _ hsize, ok_bind, addOrTrap_eq (by omega), ok_bind, addOrTrap_eq (by omega),
      ok_bind, addOrTrap_eq (by omega), ok_bind, ← hnext]
    by_cases hfull : s.words.len < s.frameEnd + 2 + slots * mode.fields
    · rw [if_pos hfull, wordOr]
      split
      next => rw [ok_bind, if_pos (by omega)]; rfl
      next => rfl
    · rw [if_neg hfull, wordOr_eq _ (by omega), ok_bind, if_neg (by omega),
        Table.setOrTrap_eq (by omega), ok_bind, addOrTrap_eq (by omega), ok_bind,
        Table.setOrTrap_eq (by rw [Table.len_set]; omega), ok_bind, addOrTrap_eq (by omega), ok_bind,
        of_ok]
  · rw [wordOr, if_neg hsize, violation_bind, if_pos (by omega)]
    rfl

theorem popOrTrap_eq (h : s.Framed) : s.popOrTrap = of s.pop := by
  obtain ⟨hend, hdepth, hroom⟩ := h.bounds
  rw [frameEnd] at hend
  rw [popOrTrap, pop.eq_def]
  split
  next => rfl
  next hd =>
    have hbelow := h.below hd
    rw [Table.getOrTrap_eq (by omega), ok_bind, addOrTrap_eq (by omega), ok_bind,
      subOrTrap_eq hbelow, ok_bind, subOrTrap_eq (by omega), ok_bind, of_ok]

theorem slotOffsetOrTrap_eq (h : s.Framed) (slot : Nat) :
    s.slotOffsetOrTrap slot = of (s.slotOffset slot) := by
  obtain ⟨hend, _, hroom⟩ := h.bounds
  rw [frameEnd] at hend
  rw [slotOffsetOrTrap, h.frameSizeOrTrap_eq, ok_bind, frameSize_div, slotOffset]
  by_cases hs : slot < s.frameSlots
  · have hslot := slot_le hs
    rw [if_pos hs, if_neg (Nat.not_le.mpr hs), addOrTrap_eq (by omega), ok_bind,
      mulOrTrap_eq (by omega), ok_bind, addOrTrap_eq (by omega), of_ok]
  · rw [if_neg hs, if_pos (Nat.not_lt.mp hs)]
    rfl

/-- An offset of a slot starts as many words as an entry has. -/
theorem slotOffset_le (h : s.Framed) {slot i : Nat} (hi : s.slotOffset slot = .ok i) :
    i + mode.fields ≤ s.words.len := by
  obtain ⟨hend, _, _⟩ := h.bounds
  rw [frameEnd] at hend
  unfold slotOffset at hi
  split at hi
  next hs =>
    cases Except.ok.inj hi
    have hslot := slot_le hs
    omega
  next => cases hi

theorem loadSlotOrTrap_eq (h : s.Framed) (slot : Nat) :
    s.loadSlotOrTrap slot = of (s.loadSlot slot) := by
  obtain ⟨_, _, hroom⟩ := h.bounds
  rw [loadSlotOrTrap, h.slotOffsetOrTrap_eq, loadSlot]
  cases hi : s.slotOffset slot with
  | error v => rfl
  | ok i =>
    have hle := h.slotOffset_le hi
    rw [of_ok, ok_bind, addOrTrap_eq (by omega), ok_bind, Table.rangeOrTrap_eq (by omega) hle,
      ok_bind, of_ok]

theorem storeSlotOrTrap_eq (h : s.Framed) (slot : Nat) (e : Metadata) :
    s.storeSlotOrTrap slot e = of (s.storeSlot slot e) := by
  obtain ⟨_, _, hroom⟩ := h.bounds
  rw [storeSlotOrTrap, h.slotOffsetOrTrap_eq, ShadowStack.storeSlot]
  cases hi : s.slotOffset slot with
  | error v => rfl
  | ok i =>
    have hle := h.slotOffset_le hi
    rw [of_ok, ok_bind, addOrTrap_eq (by omega), ok_bind, Table.rangeOrTrap_eq (by omega) hle,
      ok_bind, of_ok]

theorem propagateOrTrap_eq (h : s.Framed) (source target : Nat) :
    s.propagateOrTrap source target = of (s.propagate source target) := by
  rw [propagateOrTrap, h.loadSlotOrTrap_eq, ShadowStack.propagate]
  cases s.loadSlot source with
  | error v => rfl
  | ok e => rw [of_ok, ok_bind, h.storeSlotOrTrap_eq]

theorem slotSpanOrTrap_eq (h : s.Framed) (slot : Nat) :
    s.slotSpanOrTrap slot = of (s.slotSpan slot) := by
  obtain ⟨hend, _, hroom⟩ := h.bounds
  rw [frameEnd] at hend
  rw [slotSpanOrTrap, h.frameSizeOrTrap_eq, ok_bind, frameSize_div, slotSpan]
  by_cases hs : s.frameSlots < slot
  · rw [if_pos hs, if_pos hs]
    rfl
  · have hslot : slot * mode.fields ≤ s.frameSize :=
      (Nat.mul_le_mul_right _ (Nat.not_lt.mp hs)).trans (Nat.div_mul_le_self ..)
    rw [if_neg hs, if_neg hs, addOrTrap_eq (by omega), ok_bind, mulOrTrap_eq (by omega), ok_bind,
      addOrTrap_eq (by omega), ok_bind, addOrTrap_eq (by omega), ok_bind, of_ok, frameEnd]

/-- A span that shows an entry lies below the end of the current frame. -/
theorem next_lt_of_readSpan (h : s.Framed) {span : SlotSpan} {e : Metadata}
    (hr : s.readSpan span = some e) : span.next + mode.fields ≤ s.words.len := by
  obtain ⟨hend, _, _⟩ := h.bounds
  unfold readSpan at hr
  split at hr
  next => cases hr
  next => omega

theorem readSpanOrTrap_eq (h : s.Framed) (span : SlotSpan) :
    s.readSpanOrTrap span = .ok (s.readSpan span) := by
  obtain ⟨hend, _, hroom⟩ := h.bounds
  have hdef : s.frameEnd = s.ptr + 2 + s.frameSize := rfl
  rw [readSpanOrTrap, addOrTrap_eq (by omega), ok_bind, h.frameSizeOrTrap_eq, ok_bind,
    addOrTrap_eq (by omega), ok_bind, readSpan, ← hdef]
  by_cases hgone : span.next < 2 ∨ span.stop < span.next + mode.fields ∨ s.frameEnd < span.stop
  · rw [if_pos hgone, if_pos (Or.inr hgone)]
  · rw [if_neg hgone, if_neg (by omega), Table.rangeOrTrap_eq (by omega) (by omega), ok_bind]

end Framed

end ShadowStack

namespace Proxies

variable {p p' : Proxies}

def liveOrTrap (p : Proxies) : Checked Nat := subOrTrap p.spans.size p.closed.length

def openSpanOrTrap (p : Proxies) (span : SlotSpan) : Checked (Word × Proxies) :=
  match p.closed with
  | i :: closed => do
    let spans ← putOrTrap p.spans i (some span)
    let proxy ← addOrTrap i 1
    .ok (.ofNat proxy, { p with spans, closed })
  | [] =>
    if p.spans.size < p.capacity then do
      let i ← subOrTrap (p.spans.push none).size 1
      let spans ← putOrTrap (p.spans.push none) i (some span)
      let proxy ← addOrTrap i 1
      .ok (.ofNat proxy, { p with spans })
    else violation (.exhausted .vaArgProxies)

def advanceOrTrap (p : Proxies) (proxy : Word) (words : Nat) : Checked Proxies := do
  let span ← of (p.span proxy)
  let next ← addOrTrap span.next words
  let i ← subOrTrap proxy.toNat 1
  let spans ← putOrTrap p.spans i (some { span with next })
  .ok { p with spans }

def duplicateOrTrap (p : Proxies) (proxy : Word) : Checked (Word × Proxies) := do
  let span ← of (p.span proxy)
  p.openSpanOrTrap span

def closeOrTrap (p : Proxies) (proxy : Word) : Checked Proxies := do
  let _ ← of (p.span proxy)
  let i ← subOrTrap proxy.toNat 1
  let spans ← putOrTrap p.spans i none
  .ok { p with spans, closed := i :: p.closed }

/-- An open proxy is not zero, and its place is one of the list. -/
theorem place_of_span {proxy : Word} {span : SlotSpan} (h : p.span proxy = .ok span) :
    1 ≤ proxy.toNat ∧ proxy.toNat - 1 < p.spans.size := by
  have hc := span_eq_ok_iff.mp h
  have hz : proxy.toNat ≠ 0 := fun hz => (cursor_eq_some_iff.mp hc).1 (UInt64.toNat_inj.mp hz)
  exact ⟨Nat.one_le_iff_ne_zero.mpr hz, cursor_lt_size hc⟩

theorem advanceOrTrap_eq {proxy : Word} {words : Nat}
    (hfit : ∀ span, p.span proxy = .ok span → span.next + words < 1 <<< 64) :
    p.advanceOrTrap proxy words = of (p.advance proxy words) := by
  rw [advanceOrTrap, advance]
  cases hs : p.span proxy with
  | error v => rfl
  | ok span =>
    obtain ⟨hpos, hlt⟩ := place_of_span hs
    rw [of_ok, ok_bind, addOrTrap_eq (hfit span hs), ok_bind, subOrTrap_eq hpos, ok_bind,
      putOrTrap_eq hlt, ok_bind, of_ok]

theorem closeOrTrap_eq (p : Proxies) (proxy : Word) : p.closeOrTrap proxy = of (p.close proxy) := by
  rw [closeOrTrap, close]
  cases hs : p.span proxy with
  | error v => rfl
  | ok span =>
    obtain ⟨hpos, hlt⟩ := place_of_span hs
    rw [of_ok, ok_bind, subOrTrap_eq hpos, ok_bind, putOrTrap_eq hlt, ok_bind, of_ok]

namespace Sound

theorem openSpanOrTrap_eq (h : p.Sound) (span : SlotSpan) :
    p.openSpanOrTrap span = of (p.openSpan span) := by
  have hroom := h.room
  have hsmall := h.small
  rw [openSpanOrTrap, Proxies.openSpan]
  cases hclosed : p.closed with
  | cons i closed =>
    have hvacant := h.vacant i (hclosed ▸ List.mem_cons_self ..)
    obtain ⟨hi, _⟩ := Array.getElem?_eq_some_iff.mp hvacant
    simp only [putOrTrap_eq hi, ok_bind]
    rw [addOrTrap_eq (by omega), ok_bind, of_ok]
  | nil =>
    by_cases hlt : p.spans.size < p.capacity
    · have hset : (p.spans.push none).setIfInBounds p.spans.size (some span)
          = p.spans.push (some span) := by
        simp [Array.setIfInBounds, Array.set_push]
      simp only [if_pos hlt]
      rw [Array.size_push, subOrTrap_eq (Nat.le_add_left ..), ok_bind, Nat.add_sub_cancel,
        putOrTrap_eq (by rw [Array.size_push]; omega), ok_bind, addOrTrap_eq (by omega), ok_bind,
        hset, of_ok]
    · simp only [if_neg hlt]
      rfl

theorem duplicateOrTrap_eq (h : p.Sound) (proxy : Word) :
    p.duplicateOrTrap proxy = of (p.duplicate proxy) := by
  rw [duplicateOrTrap, Proxies.duplicate]
  cases p.span proxy with
  | error v => rfl
  | ok span => rw [of_ok, ok_bind, h.openSpanOrTrap_eq]

/-- No more places are closed than were given out. -/
theorem liveOrTrap_eq (h : p.Sound) : p.liveOrTrap = .ok p.live := by
  have hsub : p.closed ⊆ List.range p.spans.size := fun i hi => by
    obtain ⟨hlt, _⟩ := Array.getElem?_eq_some_iff.mp (h.vacant i hi)
    exact List.mem_range.mpr hlt
  have hle := (h.distinct.subperm hsub).length_le
  rw [List.length_range] at hle
  exact subOrTrap_eq hle

end Sound

end Proxies

end PointerGuard
