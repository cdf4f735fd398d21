import PointerGuard.Proofs.Guard.CallLog

namespace PointerGuard

variable {host : Host}
variable {mode : Mode} {c : CallLog} {k : Ticket} {s : ShadowStack mode} {p : Proxies}

theorem ShadowStack.readSpan_eq_some {span : SlotSpan} (h : s.readSpan span ≠ none) :
    s.readSpan span = some (mode.decode (s.words.slice span.next mode.fields)) := by
  unfold ShadowStack.readSpan at h ⊢
  split
  next hc => exact absurd (if_pos hc) h
  next => rfl

namespace CallLog

/-- The entry in a slot of a frame on the stack. -/
def slot? (c : CallLog) (s : ShadowStack mode) (frame : CallFrame) (slot : Nat) :
    Option Metadata :=
  s.frames[c.frames.idxOf frame]?.bind (·[slot]?)

/-- A proxy shows the slot that it has come to while its frame is on the stack. -/
theorem Agrees.readSpan_of_mem (h : c.Agrees s p) (hv : k.Valid c) (hm : k.frame ∈ c.frames)
    (hn : k.next < k.frame.slots) : ∃ e, c.slot? s k.frame k.next = some e ∧
      s.readSpan (k.span mode) = some e := by
  obtain ⟨newer, hframes, hnot⟩ := hv.frames_eq hm
  obtain ⟨fs, hfs, hlengths⟩ := h.frames
  rw [hframes, List.map_append] at hlengths
  obtain ⟨gs, hs, rfl, hgs, hhs⟩ := List.map_eq_append_iff.mp hlengths
  obtain ⟨f, fs, rfl, hlen, hbelow⟩ := List.map_eq_cons_iff.mp hhs
  have hcount : gs.length = newer.length := by
    rw [← List.length_map, hgs, List.length_map]
  have hplace : c.frames.idxOf k.frame = gs.length := by
    rw [hframes, List.idxOf_append_of_notMem hnot, List.idxOf_cons_self, hcount, Nat.add_zero]
  have hlong : ¬space mode c.frames < space mode (k.frame :: k.below) := by
    have hle := space_le_of_suffix mode (List.suffix_append newer (k.frame :: k.below))
    rw [hframes]
    exact Nat.not_lt.mpr hle
  have hshown : s.readSpan (k.span mode) ≠ none := fun hnone =>
    ((h.readSpan_eq_none_iff hv).mp hnone).elim (Nat.ne_of_lt hn) hlong
  refine ⟨_, ?_, ShadowStack.readSpan_eq_some hshown⟩
  have hentries := hfs.laid.lower.entries
  rw [slot?, hfs.frames, hplace, List.getElem?_append_right (Nat.le_refl _), Nat.sub_self]
  show f[k.next]? = _
  rw [← hentries, ShadowStack.getElem?_slotEntries (hlen ▸ hn), frameWords_eq_space hbelow]
  rfl

end CallLog

namespace Guard

variable {g : Guard mode} {config : Config}

/-- A proxy answers nothing exactly if it is used up, or the stack ends before the proxy's frame
did. -/
theorem nextVariadic_refused_iff_used_up_or_short (hc : Guard.create host config = .ok g)
    (hcap : config.vaArgProxies < 2 ^ 64) (ops : List Operation) {proxy : Word} {k : Ticket}
    (hk : (g.logged {} ops).tickets proxy = some k) :
    let c := g.logged {} ops
    let g' := g.after ops
    let turn := (perform (.nextVariadic proxy)).run g'
    let gone := k.next = k.frame.slots ∨ space mode c.frames < space mode (k.frame :: k.below)
    (gone → turn = (.error (.proxyPastFrame proxy), g')) ∧
    (¬gone → ∃ e, turn.1 = .ok (.entry e)) ∧
    ((∀ f ∈ c.frames, f.serial < k.frame.serial) → gone) ∧
    (k.frame ∈ c.frames → k.next < k.frame.slots →
      ∃ e, c.slot? g'.shadow k.frame k.next = some e ∧ turn.1 = .ok (.entry e)) := by
  intro c g' turn gone
  have hagrees : c.Agrees g'.shadow g'.proxies := agrees_after (agrees_create hc hcap) ops
  have hv : k.Valid c := hagrees.tickets proxy k hk
  have hspan : g'.proxies.span proxy = .ok (k.span mode) := by
    rw [Proxies.span_eq_ok_iff, hagrees.cursors, hk]
    rfl
  obtain ⟨p, ha⟩ := Proxies.advance_of_span hspan mode.fields
  have hanswer {e : Metadata} (he : g'.shadow.readSpan (k.span mode) = some e) :
      turn.1 = .ok (.entry e) := congrArg Prod.fst (run_nextVariadic_of_some hspan he ha)
  refine ⟨fun hgone => ?_, fun hgone => ?_, fun hold => Or.inr (hv.space_lt hold), fun hm hn => ?_⟩
  · exact run_nextVariadic_of_none hspan ((hagrees.readSpan_eq_none_iff hv).mpr hgone)
  · have hshown := fun hnone => hgone ((hagrees.readSpan_eq_none_iff hv).mp hnone)
    exact ⟨_, hanswer (ShadowStack.readSpan_eq_some hshown)⟩
  · obtain ⟨e, hslot, he⟩ := hagrees.readSpan_of_mem hv hm hn
    exact ⟨e, hslot, hanswer he⟩

/-- The proxy is opened over the second slot of a frame; it shows this slot under a callee's frame,
and nothing once both frames are popped and a shorter one is pushed. -/
theorem nextVariadic_refused_in_shorter_frame :
    ∃ g : Guard .combined, Guard.create .standard Config.compact = .ok g ∧
      ((perform (.nextVariadic 1)).run (g.after
        [.pushFrame 2, .openProxy 1, .storeSlot 1 (.wide 0), .pushFrame 3])).1
          = .ok (.entry (.wide 0)) ∧
      ((perform (.nextVariadic 1)).run (g.after
        [.pushFrame 2, .openProxy 1, .storeSlot 1 (.wide 0), .pushFrame 3, .popFrame, .popFrame,
          .pushFrame 1])).1 = .error (.proxyPastFrame 1) := by
  let k : Ticket := ⟨⟨1, 2⟩, [⟨0, 0⟩], 1⟩
  let opened : List Operation :=
    [.pushFrame 2, .openProxy 1, .storeSlot 1 (.wide 0), .pushFrame 3]
  obtain ⟨g, hc, hk, hm, hslot, hk', hshort⟩ : ∃ g : Guard .combined,
      Guard.create .standard Config.compact = .ok g ∧ (g.logged {} opened).tickets 1 = some k ∧
      k.frame ∈ (g.logged {} opened).frames ∧
      (g.logged {} opened).slot? (g.after opened).shadow k.frame k.next = some (.wide 0) ∧
      (g.logged {} (opened ++ [.popFrame, .popFrame, .pushFrame 1])).tickets 1 = some k ∧
      space .combined (g.logged {} (opened ++ [.popFrame, .popFrame, .pushFrame 1])).frames
        < space .combined (k.frame :: k.below) :=
    ⟨_, rfl, rfl, by decide, by decide, rfl, by decide⟩
  have hcap : Config.compact.vaArgProxies < 2 ^ 64 := by decide
  obtain ⟨_, _, _, hshown⟩ := nextVariadic_refused_iff_used_up_or_short hc hcap _ hk
  obtain ⟨hrefused, _⟩ := nextVariadic_refused_iff_used_up_or_short hc hcap _ hk'
  obtain ⟨e, he, hanswer⟩ := hshown hm (by decide)
  cases he.symm.trans hslot
  exact ⟨g, hc, hanswer, congrArg Prod.fst (hrefused (Or.inr hshort))⟩

/-- The proxy's frame was popped. The header of the third frame lies where the slots of that frame
did, and is answered as bounds. -/
theorem nextVariadic_shows_popped_frame :
    ∃ g : Guard .combined, Guard.create .standard Config.compact = .ok g ∧
      ∃ k, (g.logged {} [.pushFrame 2, .openProxy 0, .popFrame, .pushFrame 0, .pushFrame 1,
          .storeSlot 0 ⟨0x1000, 0x1010, 2, heapLocksAddr⟩, .pushFrame 0]).tickets 1 = some k ∧
        k.frame ∉ (g.logged {} [.pushFrame 2, .openProxy 0, .popFrame, .pushFrame 0, .pushFrame 1,
          .storeSlot 0 ⟨0x1000, 0x1010, 2, heapLocksAddr⟩, .pushFrame 0]).frames ∧
        ((perform (.nextVariadic 1)).run (g.after [.pushFrame 2, .openProxy 0, .popFrame,
          .pushFrame 0, .pushFrame 1, .storeSlot 0 ⟨0x1000, 0x1010, 2, heapLocksAddr⟩,
          .pushFrame 0])).1 = .ok (.entry ⟨0, 4, 0x1000, 0x1010⟩) :=
  ⟨_, rfl, ⟨⟨1, 2⟩, [⟨0, 0⟩], 0⟩, rfl, by decide, rfl⟩

end Guard

end PointerGuard
