import Mathlib
import PointerGuard.Proxies

namespace PointerGuard.Proxies

variable {p p' : Proxies} {proxy : Word} {span : SlotSpan} {o : Option SlotSpan}

/-- What an open proxy has left. -/
def cursor (p : Proxies) (proxy : Word) : Option SlotSpan :=
  if proxy = 0 then none else p.spans[proxy.toNat - 1]?.join

/-- Closed handles are vacant, and each of them is given out again once. -/
structure Sound (p : Proxies) : Prop where
  vacant : ∀ i ∈ p.closed, p.spans[i]? = some none
  distinct : p.closed.Nodup
  room : p.spans.size ≤ p.capacity
  small : p.capacity < 2 ^ 64

theorem sound_empty {capacity : Nat} (h : capacity < 2 ^ 64) : Sound { capacity } :=
  ⟨by simp, .nil, Nat.zero_le _, h⟩

@[simp] theorem cursor_empty (capacity : Nat) (proxy : Word) :
    ({ capacity } : Proxies).cursor proxy = none := by
  simp [cursor]

theorem span_eq (p : Proxies) (proxy : Word) :
    p.span proxy = (p.cursor proxy).elim (.error (.unknownProxy proxy)) .ok := by
  unfold span cursor
  split
  next => rfl
  next =>
    split
    next h => rw [h]; rfl
    next h =>
      rcases hs : p.spans[proxy.toNat - 1]? with _ | _ | span
      · rfl
      · rfl
      · exact absurd hs (h span)

theorem span_eq_ok_iff : p.span proxy = .ok span ↔ p.cursor proxy = some span := by
  rw [span_eq]
  cases p.cursor proxy <;> simp

theorem cursor_eq_some_iff : p.cursor proxy = some span ↔
    proxy ≠ 0 ∧ p.spans[proxy.toNat - 1]? = some (some span) := by
  unfold cursor
  split
  next hz => simp [hz]
  next hz => simp [hz, Option.join_eq_some_iff]

theorem cursor_of_set {spans : Array (Option SlotSpan)} (hz : proxy ≠ 0)
    (hs : ∀ i, spans[i]? = if i = proxy.toNat - 1 then some o else p.spans[i]?)
    (closed : List Nat) (x : Word) : ({ p with spans, closed } : Proxies).cursor x
      = if x = proxy then o else p.cursor x := by
  unfold cursor
  by_cases hx : x = proxy
  · subst hx
    rw [if_neg hz, if_pos rfl, hs, if_pos rfl]
    rfl
  · rw [if_neg hx, hs]
    by_cases hxz : x = 0
    · rw [if_pos hxz, if_pos hxz]
    · have hne : x.toNat - 1 ≠ proxy.toNat - 1 := by
        intro heq
        have hx0 : x.toNat ≠ 0 := fun h => hxz (UInt64.toNat_inj.mp h)
        have hp0 : proxy.toNat ≠ 0 := fun h => hz (UInt64.toNat_inj.mp h)
        exact hx (UInt64.toNat_inj.mp (by omega))
      rw [if_neg hne]

theorem cursor_lt_size (h : p.cursor proxy = some span) :
    proxy.toNat - 1 < p.spans.size := by
  obtain ⟨_, hs⟩ := cursor_eq_some_iff.mp h
  exact (Array.getElem?_eq_some_iff.mp hs).1

theorem getElem?_setIfInBounds_of_lt {i : Nat} (hi : i < p.spans.size) (o : Option SlotSpan)
    (j : Nat) : (p.spans.setIfInBounds i o)[j]? = if j = i then some o else p.spans[j]? := by
  rw [Array.getElem?_setIfInBounds, if_pos hi]
  by_cases hj : i = j
  · rw [if_pos hj, if_pos hj.symm]
  · rw [if_neg hj, if_neg (Ne.symm hj)]

/-- An open handle is not among the closed ones. -/
theorem Sound.notMem_closed (h : p.Sound) (hc : p.cursor proxy = some span) :
    proxy.toNat - 1 ∉ p.closed := by
  intro hm
  obtain ⟨_, hs⟩ := cursor_eq_some_iff.mp hc
  cases (h.vacant _ hm).symm.trans hs

theorem advance_of_span (hs : p.span proxy = .ok span) (words : Nat) :
    ∃ p', p.advance proxy words = .ok p' := by
  rw [Proxies.advance, hs]
  exact ⟨_, rfl⟩

theorem Sound.advance {words : Nat} (h : p.Sound) (ha : p.advance proxy words = .ok p') :
    ∃ span, p.cursor proxy = some span ∧ p'.Sound ∧ ∀ x, p'.cursor x
      = if x = proxy then some { span with next := span.next + words } else p.cursor x := by
  unfold Proxies.advance at ha
  split at ha
  next => cases ha
  next span hs =>
    cases Except.ok.inj ha
    have hc := span_eq_ok_iff.mp hs
    obtain ⟨hz, _⟩ := cursor_eq_some_iff.mp hc
    have hset := getElem?_setIfInBounds_of_lt (cursor_lt_size hc)
      (some { span with next := span.next + words })
    refine ⟨span, hc, ⟨fun i hi => ?_, h.distinct, ?_, h.small⟩, cursor_of_set hz hset _⟩
    · have hne : i ≠ proxy.toNat - 1 := fun heq => h.notMem_closed hc (heq ▸ hi)
      rw [hset, if_neg hne, h.vacant i hi]
    · rw [Array.size_setIfInBounds]
      exact h.room

theorem Sound.close (h : p.Sound) (hc : p.close proxy = .ok p') :
    p'.Sound ∧ ∀ x, p'.cursor x = if x = proxy then none else p.cursor x := by
  unfold Proxies.close at hc
  split at hc
  next => cases hc
  next span hs =>
    cases Except.ok.inj hc
    have hopen := span_eq_ok_iff.mp hs
    obtain ⟨hz, _⟩ := cursor_eq_some_iff.mp hopen
    have hset := getElem?_setIfInBounds_of_lt (cursor_lt_size hopen) none
    have hnew := h.notMem_closed hopen
    refine ⟨⟨fun i hi => ?_, List.nodup_cons.mpr ⟨hnew, h.distinct⟩, ?_, h.small⟩,
      cursor_of_set hz hset _⟩
    · rw [hset]
      by_cases heq : i = proxy.toNat - 1
      · rw [if_pos heq]
      · rw [if_neg heq, h.vacant i ((List.mem_cons.mp hi).resolve_left heq)]
    · rw [Array.size_setIfInBounds]
      exact h.room

/-- The handle of a place is not zero and leads back to the place. -/
theorem handle_of_lt {i : Nat} (hi : i + 1 < 2 ^ 64) :
    UInt64.ofNat (i + 1) ≠ 0 ∧ (UInt64.ofNat (i + 1)).toNat - 1 = i := by
  have hn := toNat_ofNat_of_lt hi
  refine ⟨fun hz => ?_, by omega⟩
  rw [hz] at hn
  cases hn

theorem cursor_handle {i : Nat} (hi : i + 1 < 2 ^ 64) :
    p.cursor (.ofNat (i + 1)) = p.spans[i]?.join := by
  obtain ⟨hz, hback⟩ := handle_of_lt hi
  rw [cursor, if_neg hz, hback]

/-- A handle that is given out was not open. -/
theorem Sound.openSpan (h : p.Sound) (ho : p.openSpan span = .ok (proxy, p')) :
    p'.Sound ∧ p.cursor proxy = none ∧
      ∀ x, p'.cursor x = if x = proxy then some span else p.cursor x := by
  have hroom := h.room
  have hsmall := h.small
  unfold Proxies.openSpan at ho
  split at ho
  next i closed hclosed =>
    cases Except.ok.inj ho
    have hvacant := h.vacant i (hclosed ▸ List.mem_cons_self ..)
    obtain ⟨hi, _⟩ := Array.getElem?_eq_some_iff.mp hvacant
    obtain ⟨hz, hback⟩ := handle_of_lt (i := i) (by omega)
    have hset := getElem?_setIfInBounds_of_lt hi (some span)
    have hdistinct := hclosed ▸ h.distinct
    refine ⟨⟨fun j hj => ?_, (List.nodup_cons.mp hdistinct).2, ?_, h.small⟩, ?_, ?_⟩
    · have hne : j ≠ i := fun heq => (List.nodup_cons.mp hdistinct).1 (heq ▸ hj)
      rw [hset, if_neg hne, h.vacant j (hclosed ▸ List.mem_cons_of_mem _ hj)]
    · rw [Array.size_setIfInBounds]
      exact h.room
    · rw [cursor_handle (by omega), hvacant]
      rfl
    · exact cursor_of_set hz (fun j => by rw [hset, hback]) _
  next hclosed =>
    split at ho
    next hlt =>
      cases Except.ok.inj ho
      obtain ⟨hz, hback⟩ := handle_of_lt (i := p.spans.size) (by omega)
      have hpush (j : Nat) : (p.spans.push (some span))[j]?
          = if j = p.spans.size then some (some span) else p.spans[j]? := Array.getElem?_push
      refine ⟨⟨fun j hj => ?_, h.distinct, ?_, h.small⟩, ?_, ?_⟩
      · rw [hclosed] at hj
        cases hj
      · rw [Array.size_push]
        exact hlt
      · rw [cursor_handle (by omega), Array.getElem?_eq_none (Nat.le_refl _)]
        rfl
      · exact cursor_of_set hz (fun j => by rw [hpush, hback]) _
    next => cases ho

theorem Sound.duplicate {copy : Word} (h : p.Sound)
    (hd : p.duplicate proxy = .ok (copy, p')) : ∃ span, p.cursor proxy = some span ∧
      p'.Sound ∧ p.cursor copy = none ∧
        ∀ x, p'.cursor x = if x = copy then some span else p.cursor x := by
  unfold Proxies.duplicate at hd
  split at hd
  next => cases hd
  next span hs => exact ⟨span, span_eq_ok_iff.mp hs, h.openSpan hd⟩

end PointerGuard.Proxies
