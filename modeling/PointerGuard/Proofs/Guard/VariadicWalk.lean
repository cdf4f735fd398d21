import PointerGuard.Proofs.Guard.Variadics

namespace PointerGuard

variable {host : Host}
variable {mode : Mode} {c : CallLog} {k : Ticket} {s : ShadowStack mode} {p : Proxies}

namespace CallLog

theorem Agrees.depth (h : c.Agrees s p) : s.depth + 1 = c.frames.length := by
  obtain ⟨fs, hfs, hlengths⟩ := h.frames
  have hlen := congrArg List.length hlengths
  rw [List.length_map, List.length_map] at hlen
  rw [hfs.depth, hlen]

/-- Frames are added and removed at the top. -/
theorem frames_note (c : CallLog) (op : Operation) (a : Except Violation Answer) :
    (c.note op a).frames = c.frames ∨ (c.note op a).frames = c.frames.tail ∨
      ∃ f, (c.note op a).frames = f :: c.frames := by
  unfold note
  split
  next => exact Or.inr (Or.inr ⟨_, rfl⟩)
  next => exact Or.inr (Or.inl rfl)
  all_goals exact Or.inl rfl

theorem tickets_setTicket_of_ne {proxy x : Word} (hx : x ≠ proxy) (ticket : Option Ticket) :
    (c.setTicket proxy ticket).tickets x = c.tickets x :=
  if_neg hx

/-- A frame that the stack still reaches lies where it lay, under newer ones. -/
theorem Agrees.frame_at {f : CallFrame} {below : List CallFrame} (h : c.Agrees s p)
    (hs : f :: below <:+ c.frames) :
    ∃ shown, s.frames[s.depth - below.length]? = some shown ∧ shown.length = f.slots := by
  obtain ⟨newer, hframes⟩ := hs
  obtain ⟨fs, hfs, hlengths⟩ := h.frames
  have hdepth := h.depth
  rw [← hframes, List.map_append] at hlengths
  rw [← hframes, List.length_append, List.length_cons] at hdepth
  obtain ⟨gs, hs, rfl, hgs, hhs⟩ := List.map_eq_append_iff.mp hlengths
  obtain ⟨shown, fs, rfl, hlen, _⟩ := List.map_eq_cons_iff.mp hhs
  have hcount : gs.length = newer.length := by
    rw [← List.length_map, hgs, List.length_map]
  refine ⟨shown, ?_, hlen⟩
  have hplace : s.depth - below.length - gs.length = 0 := by omega
  rw [hfs.frames, List.getElem?_append_right (by omega), hplace]
  rfl

end CallLog

/-- The ticket's frame is on the stack, with the frames under it that it was pushed on. -/
def Ticket.Stands (k : Ticket) (c : CallLog) : Prop := k.frame :: k.below <:+ c.frames

namespace CallLog

/-- A proxy whose frame is on the stack shows the slot that it has come to, if there is one. -/
theorem Agrees.readSpan_of_stands (h : c.Agrees s p) (hv : k.Valid c) (hk : k.Stands c) :
    ∃ frame, s.frames[s.depth - k.below.length]? = some frame ∧ frame.length = k.frame.slots ∧
      s.readSpan (k.span mode) = frame[k.next]? := by
  obtain ⟨frame, hat, hlen⟩ := h.frame_at hk
  refine ⟨frame, hat, hlen, ?_⟩
  have hm : k.frame ∈ c.frames := hk.mem (List.mem_cons_self ..)
  by_cases hn : k.next < k.frame.slots
  · obtain ⟨e, hslot, he⟩ := h.readSpan_of_mem hv hm hn
    obtain ⟨newer, hframes, hnot⟩ := hv.frames_eq hm
    have hdepth := h.depth
    rw [hframes, List.length_append, List.length_cons] at hdepth
    have hplace : c.frames.idxOf k.frame = s.depth - k.below.length := by
      rw [hframes, List.idxOf_append_of_notMem hnot, List.idxOf_cons_self]
      omega
    rw [slot?, hplace, hat] at hslot
    rw [he]
    exact hslot.symm
  · have hused : k.next = k.frame.slots := Nat.le_antisymm hv.next_le (Nat.not_lt.mp hn)
    rw [(h.readSpan_eq_none_iff hv).mpr (Or.inl hused), List.getElem?_eq_none (by omega)]

end CallLog

namespace Guard

variable {g g' : Guard mode} {proxy : Word} {depth slots next : Nat}

/-- The reads of a proxy that succeed in a run. -/
def reads (g : Guard mode) (proxy : Word) (ops : List Operation) : Nat :=
  Runs.tally step (fun g op => op == .nextVariadic proxy && ((perform op).run g).1.isOk) g ops

/-- The run does not pop the frame at `depth`, and it does not close the proxy. -/
structure Retains (g : Guard mode) (depth : Nat) (proxy : Word) (ops : List Operation) : Prop where
  above : Runs.Always step (fun g op => depth ≤ (g.step op).shadow.depth) g ops
  kept : .closeProxy proxy ∉ ops

/-- After a run from `start`, a proxy over the frame of `slots` slots at `depth` has come to slot
`next`: it was opened there, or copied from a proxy that had come there, or came there by reads. -/
inductive Walk (start : Guard mode) : Guard mode → Word → Nat → Nat → Nat → Prop
  | opened {ops : List Operation} {slot : Nat} {proxy : Word} :
      ((perform (.openProxy slot)).run (start.after ops)).1 = .ok (.word proxy) →
      Walk start ((start.after ops).step (.openProxy slot)) proxy (start.after ops).shadow.depth
        (start.after ops).shadow.frameSlots slot
  | copied {g : Guard mode} {proxy copy : Word} {depth slots next : Nat} :
      Walk start g proxy depth slots next →
      ((perform (.copyProxy proxy)).run g).1 = .ok (.word copy) →
      Walk start (g.step (.copyProxy proxy)) copy depth slots next
  | went {g : Guard mode} {proxy : Word} {depth slots next : Nat} {ops : List Operation} :
      Walk start g proxy depth slots next → g.Retains depth proxy ops →
      Walk start (g.after ops) proxy depth slots (next + g.reads proxy ops)

theorem note_agrees (h : c.Agrees g.shadow g.proxies) (op : Operation) :
    (c.note op ((perform op).run g).1).Agrees (g.step op).shadow (g.step op).proxies :=
  h.turn (takes_perform g op)

/-- Only a read of a proxy moves its ticket, and only its close takes it away. -/
theorem ticket_note (h : c.Agrees g.shadow g.proxies) (hk : c.tickets proxy = some k)
    {op : Operation} (hop : op ≠ .closeProxy proxy) :
    (c.note op ((perform op).run g).1).tickets proxy
      = some { k with next := k.next + g.reads proxy [op] } := by
  have hcursor : g.proxies.cursor proxy = some (k.span mode) := by
    rw [h.cursors, hk]
    rfl
  -- A handle that was given out was not open, so it is not this one.
  have hfresh {x : Word} (hx : g.proxies.cursor x = none) : proxy ≠ x := by
    rintro rfl
    cases hcursor.symm.trans hx
  have still {c' : CallLog} (hc : c'.tickets proxy = c.tickets proxy)
      (hn : g.reads proxy [op] = 0) :
      c'.tickets proxy = some { k with next := k.next + g.reads proxy [op] } := by
    rw [hc, hk, hn]
    rfl
  have other (hne : op ≠ .nextVariadic proxy) : g.reads proxy [op] = 0 := by
    simp [reads, Runs.tally, hne]
  have hturn := takes_perform g op
  unfold Takes at hturn
  generalize ha : ((perform op).run g).1 = a at hturn ⊢
  generalize (((perform op).run g).2).shadow = s' at hturn
  generalize (((perform op).run g).2).proxies = p' at hturn
  cases hturn with
  | refused op v =>
    rw [CallLog.note_error]
    exact still rfl (by simp [reads, Runs.tally, ha, Except.isOk, Except.toBool])
  | spared hcall =>
    rw [CallLog.note_of_not_call hcall]
    exact still rfl (other (by rintro rfl; cases hcall))
  | stored hcall _ =>
    rw [CallLog.note_of_not_call hcall]
    exact still rfl (other (by rintro rfl; cases hcall))
  | pushed _ => exact still rfl (other (by simp))
  | popped _ => exact still rfl (other (by simp))
  | opened hs ho =>
    obtain ⟨_, hnone, _⟩ := h.proxies.openSpan ho
    exact still (CallLog.tickets_setTicket_of_ne (hfresh hnone) _) (other (by simp))
  | copied hd =>
    obtain ⟨_, _, _, hnone, _⟩ := h.proxies.duplicate hd
    exact still (CallLog.tickets_setTicket_of_ne (hfresh hnone) _) (other (by simp))
  | @closed x p _ =>
    have hx : proxy ≠ x := fun heq => hop (heq ▸ rfl)
    exact still (CallLog.tickets_setTicket_of_ne hx _) (other (by simp))
  | @advanced x span e p hs hr hadvance =>
    by_cases hx : proxy = x
    · subst hx
      have hone : g.reads proxy [.nextVariadic proxy] = 1 := by
        simp [reads, Runs.tally, ha, Except.isOk, Except.toBool]
      show (if proxy = proxy then _ else _) = _
      rw [if_pos rfl, hone, hk]
      rfl
    · exact still (CallLog.tickets_setTicket_of_ne hx _) (other (by simpa using Ne.symm hx))

/-- A frame stays on the stack as long as the stack does not get shallower. -/
theorem stands_note (h : c.Agrees g.shadow g.proxies) (hk : k.Stands c) {op : Operation}
    (hop : k.below.length ≤ (g.step op).shadow.depth) :
    k.Stands (c.note op ((perform op).run g).1) := by
  have hdepth := (note_agrees h op).depth
  obtain ⟨newer, hframes⟩ := hk
  unfold Ticket.Stands
  rcases c.frames_note op ((perform op).run g).1 with heq | heq | ⟨f, heq⟩
  · rw [heq]
    exact ⟨newer, hframes⟩
  · rw [heq] at hdepth ⊢
    cases newer with
    | nil =>
      rw [← hframes] at hdepth
      simp only [List.nil_append, List.tail_cons] at hdepth
      omega
    | cons f newer => exact ⟨newer, by rw [← hframes]; rfl⟩
  · rw [heq]
    exact ⟨f :: newer, by rw [← hframes]; rfl⟩

theorem reads_cons (op : Operation) (ops : List Operation) :
    g.reads proxy (op :: ops) = g.reads proxy [op] + (g.step op).reads proxy ops := rfl

theorem ticket_after (h : c.Agrees g.shadow g.proxies) (hk : c.tickets proxy = some k)
    (hs : k.Stands c) {ops : List Operation} (hr : g.Retains k.below.length proxy ops) :
    (g.logged c ops).tickets proxy = some { k with next := k.next + g.reads proxy ops } ∧
      k.Stands (g.logged c ops) := by
  induction ops generalizing g c k with
  | nil => exact ⟨hk, hs⟩
  | cons op ops ih =>
    obtain ⟨⟨hop, habove⟩, hkept⟩ := hr
    have hne : op ≠ .closeProxy proxy := fun heq => hkept (heq ▸ List.mem_cons_self ..)
    have hrest : (g.step op).Retains k.below.length proxy ops :=
      ⟨habove, fun hm => hkept (List.mem_cons_of_mem _ hm)⟩
    obtain ⟨hticket, hstands⟩ :=
      ih (note_agrees h op) (ticket_note h hk hne) (stands_note h hs hop) hrest
    rw [reads_cons, ← Nat.add_assoc]
    exact ⟨hticket, hstands⟩

/-- The log has a ticket for a proxy that walks through a frame on the stack. -/
theorem Walk.ticket {config : Config} {start : Guard mode} (hc : Guard.create host config = .ok start)
    (hcap : config.vaArgProxies < 2 ^ 64) (h : start.Walk g proxy depth slots next) :
    ∃ c k, CallLog.Agrees c g.shadow g.proxies ∧ c.tickets proxy = some k ∧ k.Stands c ∧
      k.below.length = depth ∧ k.frame.slots = slots ∧ k.next = next := by
  induction h with
  | @opened ops slot proxy ho =>
    have hagrees := agrees_after (agrees_create hc hcap) ops
    have hnote := note_agrees hagrees (.openProxy slot)
    obtain ⟨frame, below, hframes, hslots, _⟩ := hagrees.top
    have hdepth := hagrees.depth
    rw [hframes, List.length_cons] at hdepth
    rw [ho] at hnote
    refine ⟨_, ⟨frame, below, slot⟩, hnote, ?_, ?_, (Nat.succ.inj hdepth).symm, hslots.symm, rfl⟩
    · show (if proxy = proxy then _ else _) = _
      rw [if_pos rfl, hframes]
      rfl
    · show frame :: below <:+ (start.logged {} ops).frames
      rw [hframes]
  | @copied g proxy copy depth slots next _ hcopy ih =>
    obtain ⟨c, k, hagrees, hk, hs, hdepth, hslots, hnext⟩ := ih
    have hnote := note_agrees hagrees (.copyProxy proxy)
    rw [hcopy] at hnote
    refine ⟨_, k, hnote, ?_, hs, hdepth, hslots, hnext⟩
    show (if copy = copy then _ else _) = _
    rw [if_pos rfl]
    exact hk
  | went _ hr ih =>
    obtain ⟨c, k, hagrees, hk, hs, rfl, hslots, rfl⟩ := ih
    obtain ⟨hk', hs'⟩ := ticket_after hagrees hk hs hr
    exact ⟨_, _, agrees_after hagrees _, hk', hs', rfl, hslots, rfl⟩

/-- A proxy reads the slots of its frame one after the other, each as it is when it is read, and
then nothing more. -/
theorem nextVariadic_reads_slot {config : Config} {start : Guard mode}
    (hc : Guard.create host config = .ok start) (hcap : config.vaArgProxies < 2 ^ 64)
    (h : start.Walk g proxy depth slots next) :
    let turn := (perform (.nextVariadic proxy)).run g
    next ≤ slots ∧ ∃ frame, g.shadow.frames[g.shadow.depth - depth]? = some frame ∧
      frame.length = slots ∧
      (next < slots → ∃ e, frame[next]? = some e ∧ turn.1 = .ok (.entry e)) ∧
      (next = slots → turn = (.error (.proxyPastFrame proxy), g)) := by
  intro turn
  obtain ⟨c, k, hagrees, hk, hs, rfl, rfl, rfl⟩ := h.ticket hc hcap
  have hv : k.Valid c := hagrees.tickets proxy k hk
  obtain ⟨frame, hat, hlen, hread⟩ := hagrees.readSpan_of_stands hv hs
  have hspan : g.proxies.span proxy = .ok (k.span mode) := by
    rw [Proxies.span_eq_ok_iff, hagrees.cursors, hk]
    rfl
  refine ⟨hv.next_le, frame, hat, hlen, fun hn => ?_, fun hused => ?_⟩
  · have he : frame[k.next]? = some frame[k.next] := List.getElem?_eq_getElem (hlen ▸ hn)
    obtain ⟨p, ha⟩ := Proxies.advance_of_span hspan mode.fields
    exact ⟨_, he, congrArg Prod.fst (run_nextVariadic_of_some hspan (hread.trans he) ha)⟩
  · have hnone : frame[k.next]? = none := List.getElem?_eq_none (by omega)
    exact run_nextVariadic_of_none hspan (hread.trans hnone)

/-- A callee runs before the first read, and then the third slot is written. A copy of the proxy
answers that slot, also when the proxy itself has read it. -/
theorem nextVariadic_reads_slot_after_copy :
    ∃ start g : Guard .combined, Guard.create .standard Config.compact = .ok start ∧
      Config.compact.vaArgProxies < 2 ^ 64 ∧ start.Walk g 2 1 3 2 ∧
      ((perform (.nextVariadic 2)).run g).1 = .ok (.entry ⟨0x1000, 0x1010, 2, heapLocksAddr⟩) := by
  let body : List Operation := [.pushFrame 2, .storeSlot 0 (.wide 0), .popFrame, .nextVariadic 1,
    .storeSlot 2 ⟨0x1000, 0x1010, 2, heapLocksAddr⟩]
  obtain ⟨start, hc, hopened, hdepth, hslots, hbody, hcopied, hlast, hreads, hslot⟩ :
      ∃ start : Guard .combined, Guard.create .standard Config.compact = .ok start ∧
        let caller := start.after [.pushFrame 3]
        ((perform (.openProxy 1)).run caller).1 = .ok (.word 1) ∧
        caller.shadow.depth = 1 ∧ caller.shadow.frameSlots = 3 ∧
        let called := caller.step (.openProxy 1)
        called.Retains 1 1 body ∧
        ((perform (.copyProxy 1)).run (called.after body)).1 = .ok (.word 2) ∧
        let copied := (called.after body).step (.copyProxy 1)
        copied.Retains 1 2 [.nextVariadic 1] ∧
        1 + called.reads 1 body + copied.reads 2 [.nextVariadic 1] = 2 ∧
        let last := (copied.after [.nextVariadic 1]).shadow
        last.frames[last.depth - 1]?.bind (·[2]?) = some ⟨0x1000, 0x1010, 2, heapLocksAddr⟩ :=
    ⟨_, rfl, rfl, rfl, rfl, ⟨by decide, by decide⟩, rfl, ⟨by decide, by decide⟩, by decide,
      by decide⟩
  have hopen := Walk.opened hopened
  rw [hdepth, hslots] at hopen
  have hwalk := ((hopen.went hbody).copied hcopied).went hlast
  rw [hreads] at hwalk
  obtain ⟨_, frame, hat, _, hread, _⟩ := nextVariadic_reads_slot hc (by decide) hwalk
  obtain ⟨e, he, hanswer⟩ := hread (by decide)
  dsimp only at hslot
  rw [hat] at hslot
  cases he.symm.trans hslot
  exact ⟨start, _, hc, by decide, hwalk, hanswer⟩

end Guard

end PointerGuard
