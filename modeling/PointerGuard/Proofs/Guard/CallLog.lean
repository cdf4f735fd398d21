import PointerGuard.Proofs.Guard.Calls
import PointerGuard.Proofs.Guard.Requests
import PointerGuard.Proofs.ShadowStack.Simulation

namespace PointerGuard

variable {host : Host}

structure CallFrame where
  serial : Nat
  slots : Nat
deriving DecidableEq, Repr

/-- Where an open proxy stands: at a slot of `frame`, which had the frames of `below` under it. -/
structure Ticket where
  frame : CallFrame
  below : List CallFrame
  next : Nat
deriving DecidableEq, Repr

structure CallLog where
  /-- The frames pushed so far, popped ones included. -/
  pushed : Nat := 0
  /-- The frames on the stack, newest first; the root has number zero. -/
  frames : List CallFrame := [⟨0, 0⟩]
  tickets : Word → Option Ticket := fun _ => none

namespace CallLog

def setTicket (c : CallLog) (proxy : Word) (ticket : Option Ticket) : CallLog :=
  { c with tickets := fun x => if x = proxy then ticket else c.tickets x }

/-- The log after the answer to an operation. -/
def note (c : CallLog) : Operation → Except Violation Answer → CallLog
  | .pushFrame n, .ok _ =>
    { c with pushed := c.pushed + 1, frames := ⟨c.pushed + 1, n⟩ :: c.frames }
  | .popFrame, .ok _ => { c with frames := c.frames.tail }
  | .openProxy slot, .ok (.word proxy) =>
    c.setTicket proxy (c.frames.head?.map (⟨·, c.frames.tail, slot⟩))
  | .nextVariadic proxy, .ok _ =>
    c.setTicket proxy ((c.tickets proxy).map fun k => { k with next := k.next + 1 })
  | .copyProxy proxy, .ok (.word copy) => c.setTicket copy (c.tickets proxy)
  | .closeProxy proxy, .ok _ => c.setTicket proxy none
  | _, _ => c

end CallLog

/-- The words that frames take, two header words each. -/
def space (mode : Mode) : List CallFrame → Nat
  | [] => 0
  | f :: fs => space mode fs + 2 + f.slots * mode.fields

/-- The words from the next slot of a proxy to the end of its frame. -/
def Ticket.span (mode : Mode) (k : Ticket) : SlotSpan :=
  ⟨space mode k.below + 2 + k.next * mode.fields, space mode (k.frame :: k.below)⟩

variable {mode : Mode} {c : CallLog} {k : Ticket}

theorem Ticket.span_next (mode : Mode) (k : Ticket) : { k with next := k.next + 1 }.span mode
    = { k.span mode with next := (k.span mode).next + mode.fields } := by
  show SlotSpan.mk (space mode k.below + 2 + (k.next + 1) * mode.fields) _ = _
  rw [Nat.succ_mul, ← Nat.add_assoc]
  rfl

theorem frameWords_eq_space {fs : List (List Metadata)} {frames : List CallFrame}
    (h : fs.map List.length = frames.map CallFrame.slots) :
    ShadowStack.frameWords mode fs = space mode frames := by
  induction frames generalizing fs with
  | nil =>
    rw [List.map_eq_nil_iff.mp h]
    rfl
  | cons frame frames ih =>
    obtain ⟨f, fs, rfl, hlen, hrest⟩ := List.map_eq_cons_iff.mp h
    rw [ShadowStack.frameWords, space, ih hrest, hlen]

theorem space_le_of_suffix (mode : Mode) {older frames : List CallFrame} (h : older <:+ frames) :
    space mode older ≤ space mode frames := by
  obtain ⟨newer, rfl⟩ := h
  induction newer with
  | nil => exact Nat.le_refl _
  | cons f newer ih =>
    rw [List.cons_append, space]
    omega

/-- The ticket is of a frame that was pushed, and what is left of the stack it was pushed on is
still there, under newer frames. -/
structure Ticket.Valid (c : CallLog) (k : Ticket) : Prop where
  next_le : k.next ≤ k.frame.slots
  known : k.frame.serial ≤ c.pushed
  older : ∀ f ∈ k.below, f.serial < k.frame.serial
  left : ∃ newer rest, c.frames = newer ++ rest ∧ rest <:+ k.frame :: k.below ∧
    ∀ f ∈ newer, k.frame.serial < f.serial

namespace Ticket.Valid

/-- While the frame is on the stack, so are the frames below it. -/
theorem frames_eq (h : k.Valid c) (hm : k.frame ∈ c.frames) :
    ∃ newer, c.frames = newer ++ k.frame :: k.below ∧ k.frame ∉ newer := by
  obtain ⟨newer, rest, hframes, hrest, hnewer⟩ := h.left
  have hnot : k.frame ∉ newer := fun hf => Nat.lt_irrefl _ (hnewer _ hf)
  have hin : k.frame ∈ rest := by
    rw [hframes] at hm
    exact (List.mem_append.mp hm).resolve_left hnot
  rcases List.suffix_cons_iff.mp hrest with rfl | hbelow
  · exact ⟨newer, hframes, hnot⟩
  · exact absurd (h.older _ (hbelow.mem hin)) (Nat.lt_irrefl _)

/-- Until a frame is pushed after the pop of the proxy's frame, the stack is shorter. -/
theorem space_lt (h : k.Valid c) (hold : ∀ f ∈ c.frames, f.serial < k.frame.serial) :
    space mode c.frames < space mode (k.frame :: k.below) := by
  obtain ⟨newer, rest, hframes, hrest, hnewer⟩ := h.left
  cases newer with
  | cons f newer =>
    have hf := hold f (hframes ▸ List.mem_cons_self ..)
    have hf' := hnewer f (List.mem_cons_self ..)
    omega
  | nil =>
    rw [List.nil_append] at hframes
    rcases List.suffix_cons_iff.mp hrest with rfl | hbelow
    · exact absurd (hold _ (hframes ▸ List.mem_cons_self ..)) (Nat.lt_irrefl _)
    · have hle := space_le_of_suffix mode hbelow
      rw [hframes, space]
      omega

theorem push (h : k.Valid c) (n : Nat) : k.Valid
    { c with pushed := c.pushed + 1, frames := ⟨c.pushed + 1, n⟩ :: c.frames } := by
  obtain ⟨newer, rest, hframes, hrest, hnewer⟩ := h.left
  refine ⟨h.next_le, Nat.le_succ_of_le h.known, h.older, ⟨c.pushed + 1, n⟩ :: newer, rest, ?_,
    hrest, ?_⟩
  · rw [hframes]
    rfl
  · intro f hf
    rcases List.mem_cons.mp hf with rfl | hf
    · exact Nat.lt_succ_of_le h.known
    · exact hnewer f hf

theorem pop (h : k.Valid c) : k.Valid { c with frames := c.frames.tail } := by
  obtain ⟨newer, rest, hframes, hrest, hnewer⟩ := h.left
  refine ⟨h.next_le, h.known, h.older, ?_⟩
  rw [hframes]
  cases newer with
  | nil => exact ⟨[], rest.tail, rfl, (List.tail_suffix rest).trans hrest, hnewer⟩
  | cons f newer => exact ⟨newer, rest, rfl, hrest, fun f' hf => hnewer f' (List.mem_cons_of_mem _ hf)⟩

end Ticket.Valid

/-- Shadow stack and proxies are as the log says. -/
structure CallLog.Agrees (c : CallLog) (s : ShadowStack mode) (p : Proxies) : Prop where
  frames : ∃ fs, s.Holds fs ∧ fs.map List.length = c.frames.map CallFrame.slots
  order : c.frames.Pairwise fun f f' => f'.serial < f.serial
  known : ∀ f ∈ c.frames, f.serial ≤ c.pushed
  proxies : p.Sound
  cursors : ∀ proxy, p.cursor proxy = (c.tickets proxy).map (Ticket.span mode)
  tickets : ∀ proxy k, c.tickets proxy = some k → k.Valid c

namespace CallLog

variable {s s' : ShadowStack mode} {p p' : Proxies}

theorem note_error (c : CallLog) (op : Operation) (v : Violation) : c.note op (.error v) = c := by
  cases op <;> rfl

theorem note_of_not_call {op : Operation} (h : op.isCall = false) (c : CallLog)
    (a : Except Violation Answer) : c.note op a = c := by
  cases op <;> first | rfl | cases h

namespace Agrees

theorem push (h : c.Agrees s p) {n : Nat} (hp : s.push n = .ok s') :
    { c with pushed := c.pushed + 1, frames := ⟨c.pushed + 1, n⟩ :: c.frames }.Agrees s' p := by
  obtain ⟨fs, hfs, hlengths⟩ := h.frames
  obtain ⟨shown, hshown, hfs'⟩ := hfs.of_push hp
  refine ⟨⟨_, hfs', ?_⟩, ?_, ?_, h.proxies, h.cursors, fun proxy k hk => (h.tickets proxy k hk).push n⟩
  · rw [List.map_cons, List.map_cons, hshown, hlengths]
  · exact List.pairwise_cons.mpr ⟨fun f hf => Nat.lt_succ_of_le (h.known f hf), h.order⟩
  · intro f hf
    rcases List.mem_cons.mp hf with rfl | hf
    · exact Nat.le_refl _
    · exact Nat.le_succ_of_le (h.known f hf)

theorem pop (h : c.Agrees s p) (hp : s.pop = .ok s') :
    { c with frames := c.frames.tail }.Agrees s' p := by
  obtain ⟨fs, hfs, hlengths⟩ := h.frames
  refine ⟨⟨_, hfs.of_pop hp, ?_⟩, h.order.tail, ?_, h.proxies, h.cursors,
    fun proxy k hk => (h.tickets proxy k hk).pop⟩
  · rw [List.map_tail, List.map_tail, hlengths]
  · exact fun f hf => h.known f (List.mem_of_mem_tail hf)

theorem store (h : c.Agrees s p) {slot : Nat} {e : Metadata} (hs : s.storeSlot slot e = .ok s') :
    c.Agrees s' p := by
  obtain ⟨fs, hfs, hlengths⟩ := h.frames
  obtain ⟨fs', hfs', hsame⟩ := hfs.of_store hs
  exact ⟨⟨fs', hfs', hsame.trans hlengths⟩, h.order, h.known, h.proxies, h.cursors, h.tickets⟩

theorem setTicket (h : c.Agrees s p) {proxy : Word} {ticket : Option Ticket} (hp : p'.Sound)
    (hc : ∀ x, p'.cursor x = if x = proxy then ticket.map (Ticket.span mode) else p.cursor x)
    (hv : ∀ k, ticket = some k → k.Valid c) : (c.setTicket proxy ticket).Agrees s p' := by
  refine ⟨h.frames, h.order, h.known, hp, fun x => ?_, fun x k hk => ?_⟩
  · rw [hc, CallLog.setTicket]
    dsimp only
    split
    next => rfl
    next => exact h.cursors x
  · have hvalid : k.Valid c := by
      rw [CallLog.setTicket] at hk
      dsimp only at hk
      split at hk
      next => exact hv k hk
      next => exact h.tickets x k hk
    exact ⟨hvalid.next_le, hvalid.known, hvalid.older, hvalid.left⟩

/-- The frames of the log, and what the shadow stack knows of the newest one. -/
theorem top (h : c.Agrees s p) : ∃ frame below, c.frames = frame :: below ∧
    s.frameSlots = frame.slots ∧ s.ptr = space mode below ∧ s.frameEnd = space mode c.frames := by
  obtain ⟨fs, hfs, hlengths⟩ := h.frames
  obtain ⟨f, fs, rfl⟩ : ∃ f fs', fs = f :: fs' := by
    cases fs with
    | nil => cases hfs.laid
    | cons f fs => exact ⟨f, fs, rfl⟩
  obtain ⟨frame, below, hframes, hlen, hbelow⟩ := List.map_eq_cons_iff.mp hlengths.symm
  refine ⟨frame, below, hframes, ?_, ?_, ?_⟩
  · rw [hfs.frameSlots, hlen]
  · rw [hfs.ptr]
    exact frameWords_eq_space hbelow.symm
  · rw [hfs.frameEnd]
    exact frameWords_eq_space hlengths

/-- A proxy shows nothing if it is used up, or if the stack ends before the proxy's frame did. -/
theorem readSpan_eq_none_iff (h : c.Agrees s p) (hv : k.Valid c) :
    s.readSpan (k.span mode) = none ↔ k.next = k.frame.slots ∨
      space mode c.frames < space mode (k.frame :: k.below) := by
  obtain ⟨_, _, _, _, _, hend⟩ := h.top
  have hle := hv.next_le
  have husedUp : k.frame.slots * mode.fields < (k.next + 1) * mode.fields ↔
      k.next = k.frame.slots := by
    rw [Nat.mul_lt_mul_right mode.fields_pos]
    omega
  rw [Nat.succ_mul] at husedUp
  have hstop : space mode (k.frame :: k.below)
      = space mode k.below + 2 + k.frame.slots * mode.fields := rfl
  rw [← husedUp, ShadowStack.readSpan, hend, Ticket.span]
  dsimp only
  split
  next hc =>
    refine iff_of_true rfl ?_
    omega
  next hc =>
    refine iff_of_false (Option.some_ne_none _) ?_
    omega

theorem slotSpan_eq_ok (h : c.Agrees s p) {slot : Nat} {span : SlotSpan}
    (hs : s.slotSpan slot = .ok span) : ∃ k : Ticket,
      c.frames.head?.map (⟨·, c.frames.tail, slot⟩) = some k ∧ k.Valid c ∧
        k.span mode = span := by
  obtain ⟨frame, below, hframes, hslots, hptr, hend⟩ := h.top
  rw [ShadowStack.slotSpan, hslots, hptr, hend, hframes] at hs
  split at hs
  next => cases hs
  next hle =>
    have horder := hframes ▸ h.order
    refine ⟨⟨frame, below, slot⟩, by rw [hframes]; rfl, ⟨Nat.not_lt.mp hle, ?_, ?_, ?_⟩,
      Except.ok.inj hs⟩
    · exact h.known frame (hframes ▸ List.mem_cons_self ..)
    · exact (List.pairwise_cons.mp horder).1
    · exact ⟨[], c.frames, rfl, hframes ▸ List.suffix_refl _, by simp⟩

/-- The log agrees after an operation if it did before. -/
theorem turn {g : Guard mode} {op : Operation} {a : Except Violation Answer}
    (h : c.Agrees g.shadow g.proxies) (ht : Guard.Turn g op a s p) : (c.note op a).Agrees s p := by
  cases ht with
  | refused op v => rwa [note_error]
  | spared hop => rwa [note_of_not_call hop]
  | stored hop hs =>
    rw [note_of_not_call hop]
    exact h.store hs
  | pushed hp => exact h.push hp
  | popped hp => exact h.pop hp
  | @opened slot span proxy p hs ho =>
    obtain ⟨k, hk, hv, rfl⟩ := h.slotSpan_eq_ok hs
    obtain ⟨hp, _, hcursor⟩ := h.proxies.openSpan ho
    show (c.setTicket proxy _).Agrees g.shadow p
    rw [hk]
    exact h.setTicket hp hcursor fun k' hk' => Option.some.inj hk' ▸ hv
  | @advanced proxy span e p hs hr ha =>
    obtain ⟨span', hspan, hp, hcursor⟩ := h.proxies.advance ha
    cases hspan.symm.trans (Proxies.span_eq_ok_iff.mp hs)
    obtain ⟨k, hk, rfl⟩ := Option.map_eq_some_iff.mp ((h.cursors proxy).symm.trans hspan)
    have hv := h.tickets proxy k hk
    have hroom : k.next ≠ k.frame.slots := by
      intro hused
      rw [(h.readSpan_eq_none_iff hv).mpr (Or.inl hused)] at hr
      cases hr
    show (c.setTicket proxy _).Agrees g.shadow p
    rw [hk]
    refine h.setTicket hp (fun x => ?_) fun k' hk' => ?_
    · rw [hcursor, ← Ticket.span_next]
      rfl
    · cases Option.some.inj hk'
      exact ⟨Nat.lt_of_le_of_ne hv.next_le hroom, hv.known, hv.older, hv.left⟩
  | @copied proxy copy p hd =>
    obtain ⟨span, hspan, hp, _, hcursor⟩ := h.proxies.duplicate hd
    show (c.setTicket copy _).Agrees g.shadow p
    refine h.setTicket hp (fun x => ?_) (h.tickets proxy)
    rw [hcursor, ← h.cursors, hspan]
  | @closed proxy p hclose =>
    obtain ⟨hp, hcursor⟩ := h.proxies.close hclose
    exact h.setTicket hp hcursor fun _ hk => by cases hk

end Agrees

end CallLog

namespace Guard

variable {g : Guard mode} {config : Config}

/-- The log of a run that starts with the log `c`. -/
def logged (g : Guard mode) (c : CallLog) : List Operation → CallLog
  | [] => c
  | op :: ops => (g.step op).logged (c.note op ((perform op).run g).1) ops

theorem agrees_create (hc : Guard.create host config = .ok g) (hcap : config.vaArgProxies < 2 ^ 64) :
    ({} : CallLog).Agrees g.shadow g.proxies := by
  obtain ⟨_, hreserve⟩ := reserve_of_create hc
  obtain ⟨_, hshadow, hproxies, _⟩ := reserve_eq_ok hreserve
  obtain ⟨hroot, _⟩ := ShadowStack.holds_create hshadow
  rw [hproxies]
  refine ⟨⟨_, hroot, rfl⟩, List.pairwise_singleton .., ?_, Proxies.sound_empty hcap, ?_, ?_⟩
  · intro f hf
    rw [List.mem_singleton.mp hf]
  · exact Proxies.cursor_empty _
  · intro _ _ hk
    cases hk

theorem agrees_after {c : CallLog} (h : c.Agrees g.shadow g.proxies) (ops : List Operation) :
    (g.logged c ops).Agrees (g.after ops).shadow (g.after ops).proxies := by
  induction ops generalizing g c with
  | nil => exact h
  | cons op ops ih => exact ih (h.turn (takes_perform g op))

end Guard

end PointerGuard
