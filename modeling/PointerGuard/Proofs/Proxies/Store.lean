import PointerGuard.Proofs.Proxies.Requests
import PointerGuard.Proofs.Runs

namespace PointerGuard.Proxies

/-- What every live handle has left. -/
abbrev Cursors := Finmap fun _ : Word => SlotSpan

/-- The live handles after the answer to a request. -/
def note (live : Cursors) : Request → Except Violation Reply → Cursors
  | .openSpan span, .ok (.handle proxy) => live.insert proxy span
  | .advance proxy words, .ok _ =>
    match live.lookup proxy with
    | some span => live.insert proxy { span with next := span.next + words }
    | none => live
  | .duplicate proxy, .ok (.handle copy) =>
    match live.lookup proxy with
    | some span => live.insert copy span
    | none => live
  | .close proxy, .ok _ => live.erase proxy
  | _, _ => live

/-- Proxies, and the account of them. -/
structure Watched where
  proxies : Proxies
  live : Cursors

def watched (capacity : Word) : Watched := ⟨{ capacity := capacity.toNat }, ∅⟩

namespace Watched

def step (w : Watched) (r : Request) : Watched :=
  ⟨w.proxies.step r, note w.live r (w.proxies.serve r).1⟩

def after (w : Watched) (rs : List Request) : Watched := rs.foldl step w

end Watched

variable {p p' : Proxies} {live : Cursors} {r : Request} {a : Except Violation Reply}
  {proxy x : Word} {span : SlotSpan} {v : Violation}

theorem lookup_insert (live : Cursors) (proxy x : Word) (span : SlotSpan) :
    (live.insert proxy span).lookup x = if x = proxy then some span else live.lookup x := by
  by_cases hx : x = proxy
  · rw [hx, if_pos rfl, Finmap.lookup_insert]
  · rw [if_neg hx, Finmap.lookup_insert_of_ne _ hx]

theorem keys_insert (live : Cursors) (proxy : Word) (span : SlotSpan) :
    (live.insert proxy span).keys = insert proxy live.keys := by
  ext x
  simp only [Finmap.mem_keys, Finmap.mem_insert, Finset.mem_insert]

theorem note_error (live : Cursors) (r : Request) (v : Violation) :
    note live r (.error v) = live := by
  cases r <;> rfl

/-- A request leaves the account of a handle alone that it neither moves, nor closes, nor gives
out. -/
theorem lookup_note (ht : r.target? ≠ some x) (ha : a ≠ .ok (.handle x)) :
    (note live r a).lookup x = live.lookup x := by
  have hne {proxy : Word} (h : a = .ok (.handle proxy)) : x ≠ proxy := by
    rintro rfl
    exact ha h
  unfold note
  split
  next span proxy => rw [Finmap.lookup_insert_of_ne _ (hne rfl)]
  next proxy words _ =>
    have hx : x ≠ proxy := fun heq => ht (congrArg some heq.symm)
    cases live.lookup proxy with
    | none => rfl
    | some span => exact Finmap.lookup_insert_of_ne _ hx
  next proxy copy =>
    cases live.lookup proxy with
    | none => rfl
    | some span => exact Finmap.lookup_insert_of_ne _ (hne rfl)
  next proxy _ =>
    have hx : x ≠ proxy := fun heq => ht (congrArg some heq.symm)
    exact Finmap.lookup_erase_ne hx
  next => rfl

/-- The table has the live handles and the closed ones, and nothing else. -/
structure Follows (p : Proxies) (live : Cursors) : Prop extends p.Sound where
  cursor : ∀ x, p.cursor x = live.lookup x
  count : live.keys.card + p.closed.length = p.spans.size

theorem follows_empty (capacity : Word) : Follows { capacity := capacity.toNat } ∅ where
  toSound := sound_empty (UInt64.toNat_lt capacity)
  cursor x := by rw [cursor_empty, Finmap.lookup_empty]
  count := rfl

namespace Follows

theorem live_eq (h : p.Follows live) : p.live = live.keys.card := by
  rw [Proxies.live, ← h.count, Nat.add_sub_cancel]

theorem card_le (h : p.Follows live) : live.keys.card ≤ p.capacity := by
  have hcount := h.count
  have hroom := h.room
  omega

theorem span_eq (h : p.Follows live) :
    p.span x = (live.lookup x).elim (.error (.unknownProxy x)) .ok := by
  rw [Proxies.span_eq, h.cursor]

theorem cursor_eq_none_iff (h : p.Follows live) : p.cursor x = none ↔ x ∉ live := by
  rw [h.cursor, Finmap.lookup_eq_none]

/-- All handles that were ever given out are live or closed; so none is closed, and the table is
full, exactly if as many are live as there may be. -/
theorem openSpan_eq_error_iff (h : p.Follows live) : p.openSpan span = .error v ↔
    live.keys.card = p.capacity ∧ v = .exhausted .vaArgProxies := by
  have hcount := h.count
  have hroom := h.room
  rw [Proxies.openSpan_eq_error_iff, ← List.length_eq_zero_iff, ← and_assoc]
  refine and_congr_left fun _ => ⟨fun ⟨hclosed, hfull⟩ => ?_, fun hfull => ⟨?_, ?_⟩⟩ <;> omega

theorem opened (h : p.Follows live) (ho : p.openSpan span = .ok (proxy, p')) :
    p'.Follows (live.insert proxy span) := by
  obtain ⟨hsound, hnew, hcursor⟩ := h.openSpan ho
  obtain ⟨_, hcounts⟩ := openSpan_counts ho
  have hfresh : proxy ∉ live.keys := by
    rw [Finmap.mem_keys, ← h.cursor_eq_none_iff]
    exact hnew
  have hcount := h.count
  refine ⟨hsound, fun x => ?_, ?_⟩
  · rw [hcursor, lookup_insert, h.cursor]
  · rw [keys_insert, Finset.card_insert_of_notMem hfresh]
    omega

theorem moved {words : Nat} (h : p.Follows live) (ha : p.advance proxy words = .ok p') :
    ∃ span, live.lookup proxy = some span ∧
      p'.Follows (live.insert proxy { span with next := span.next + words }) := by
  obtain ⟨span, hopen, hsound, hcursor⟩ := h.advance ha
  obtain ⟨_, hsize, hclosed⟩ := advance_counts ha
  have hlive : live.lookup proxy = some span := (h.cursor proxy).symm.trans hopen
  have hmem : proxy ∈ live.keys := Finmap.mem_keys.mpr (Finmap.mem_of_lookup_eq_some hlive)
  refine ⟨span, hlive, hsound, fun x => ?_, ?_⟩
  · rw [hcursor, lookup_insert, h.cursor]
  · rw [keys_insert, Finset.insert_eq_of_mem hmem, hsize, hclosed, h.count]

theorem closed (h : p.Follows live) (hc : p.close proxy = .ok p') :
    p'.Follows (live.erase proxy) := by
  obtain ⟨hsound, hcursor⟩ := h.close hc
  obtain ⟨_, hsize, hlength⟩ := close_counts hc
  have hmem : proxy ∈ live.keys := by
    rw [Finmap.mem_keys]
    by_contra hnot
    have hclose := close_eq_error_iff.mpr ⟨h.cursor_eq_none_iff.mpr hnot, rfl⟩
    cases hclose.symm.trans hc
  have hcard := Finset.card_erase_add_one hmem
  have hcount := h.count
  refine ⟨hsound, fun x => ?_, ?_⟩
  · rw [hcursor]
    by_cases hx : x = proxy
    · rw [if_pos hx, hx, Finmap.lookup_erase]
    · rw [if_neg hx, Finmap.lookup_erase_ne hx, h.cursor]
  · rw [Finmap.keys_erase, hsize, hlength]
    omega

theorem note_opened (h : p.Follows live) (ho : p.opening? r = some span) (proxy : Word) :
    note live r (.ok (.handle proxy)) = live.insert proxy span := by
  cases r with
  | openSpan other =>
    cases ho
    rfl
  | duplicate copied =>
    have hlive : live.lookup copied = some span := (h.cursor copied).symm.trans ho
    simp only [note, hlive]
  | _ => cases ho

theorem change (h : p.Follows live) (hc : Change p r a p') : p'.Follows (note live r a) := by
  cases hc with
  | unknown _ _ => rwa [note_error]
  | full _ _ => rwa [note_error]
  | opened hopen ho =>
    rw [h.note_opened hopen]
    exact h.opened ho
  | read _ => exact h
  | moved ha =>
    obtain ⟨span, hlive, hmoved⟩ := h.moved ha
    simp only [note, hlive]
    exact hmoved
  | closed hc => exact h.closed hc

/-- A request gets a span for its new handle unless it is to copy a handle that is not live. -/
theorem exists_opening_iff (h : p.Follows live) : (∃ span, p.opening? r = some span) ↔
    r.opens = true ∧ ∀ proxy, r.proxy? = some proxy → proxy ∈ live := by
  cases r with
  | duplicate proxy =>
    have hmem : (∃ span, p.cursor proxy = some span) ↔ proxy ∈ live := by
      rw [h.cursor, Finmap.mem_iff]
    simpa [opening?, Request.opens, Request.proxy?] using hmem
  | _ => simp [opening?, Request.opens, Request.proxy?]

/-- A request is refused because its handle is not live, or because it asks for a handle and there
is none left. -/
theorem answer_eq_error_iff (h : p.Follows live) : (p.serve r).1 = .error v ↔
    (∃ proxy, r.proxy? = some proxy ∧ proxy ∉ live ∧ v = .unknownProxy proxy) ∨
      r.opens = true ∧ (∀ proxy, r.proxy? = some proxy → proxy ∈ live) ∧
        live.keys.card = p.capacity ∧ v = .exhausted .vaArgProxies := by
  have hc := p.change r
  constructor
  · intro he
    rw [he] at hc
    generalize p.step r = p' at hc
    cases hc with
    | unknown hp hnone => exact Or.inl ⟨_, hp, h.cursor_eq_none_iff.mp hnone, rfl⟩
    | full hopen ho =>
      obtain ⟨hopens, hmem⟩ := h.exists_opening_iff.mp ⟨_, hopen⟩
      exact Or.inr ⟨hopens, hmem, h.openSpan_eq_error_iff.mp ho⟩
  · rintro (⟨proxy, hp, hnot, rfl⟩ | ⟨hopens, hmem, hfull⟩)
    · exact hc.answer_of_unknown hp (h.cursor_eq_none_iff.mpr hnot)
    · obtain ⟨span, hopen⟩ := h.exists_opening_iff.mpr ⟨hopens, hmem⟩
      exact hc.answer_of_full hopen (h.openSpan_eq_error_iff.mpr hfull)

/-- A handle that is given out is neither zero nor beyond the capacity, and was not live. -/
theorem handle_of_opens (h : p.Follows live) {reply : Reply} (hr : (p.serve r).1 = .ok reply)
    (hopens : r.opens = true) :
    ∃ proxy, reply = .handle proxy ∧ proxy ≠ 0 ∧ proxy.toNat ≤ p.capacity ∧ proxy ∉ live := by
  have hc := p.change r
  rw [hr] at hc
  generalize p.step r = p' at hc
  cases hc with
  | opened _ ho =>
    obtain ⟨hz, hle⟩ := h.handle_of_openSpan ho
    obtain ⟨_, hnew, _⟩ := h.openSpan ho
    exact ⟨_, rfl, hz, hle, h.cursor_eq_none_iff.mp hnew⟩
  | read _ => cases hopens
  | moved _ => cases hopens
  | closed _ => cases hopens

end Follows

theorem watched_follows (capacity : Word) (rs : List Request) :
    let w := (watched capacity).after rs
    w.proxies.Follows w.live ∧ w.proxies.capacity = capacity.toNat := by
  refine Runs.foldl_invariant
    (I := fun w : Watched => w.proxies.Follows w.live ∧ w.proxies.capacity = capacity.toNat)
    ?_ rs ⟨follows_empty capacity, rfl⟩
  intro w r ⟨h, hcapacity⟩
  have hc := w.proxies.change r
  exact ⟨h.change hc, hc.capacity.trans hcapacity⟩

/-- A handle is live from the answer that gives it out until it is closed, and has left what the
requests to it say. -/
theorem proxies_are_bounded_store_of_cursors (capacity : Word) (rs : List Request) :
    let w := (watched capacity).after rs
    (∀ proxy, w.proxies.span proxy
      = (w.live.lookup proxy).elim (.error (.unknownProxy proxy)) .ok) ∧
    w.proxies.live = w.live.keys.card ∧ w.live.keys.card ≤ capacity.toNat ∧
    (∀ r v, (w.proxies.serve r).1 = .error v ↔
      (∃ proxy, r.proxy? = some proxy ∧ proxy ∉ w.live ∧ v = .unknownProxy proxy) ∨
        r.opens = true ∧ (∀ proxy, r.proxy? = some proxy → proxy ∈ w.live) ∧
          w.live.keys.card = capacity.toNat ∧ v = .exhausted .vaArgProxies) ∧
    (∀ r reply, (w.proxies.serve r).1 = .ok reply → r.opens = true →
      ∃ proxy, reply = .handle proxy ∧ proxy ≠ 0 ∧ proxy.toNat ≤ capacity.toNat ∧
        proxy ∉ w.live) ∧
    (∀ r v, (w.proxies.serve r).1 = .error v → w.proxies.step r = w.proxies) ∧
    ∀ r other, r.target? ≠ some other → (w.proxies.serve r).1 ≠ .ok (.handle other) →
      (w.proxies.step r).span other = w.proxies.span other := by
  intro w
  obtain ⟨h, hcapacity⟩ := watched_follows capacity rs
  refine ⟨fun proxy => h.span_eq, h.live_eq, hcapacity ▸ h.card_le, fun r v => ?refused,
    fun r reply hreply hr => ?opened, fun r v he => step_of_error he, fun r other ht ha => ?other⟩
  case refused =>
    rw [← hcapacity]
    exact h.answer_eq_error_iff
  case opened =>
    rw [← hcapacity]
    exact h.handle_of_opens hreply hr
  case other =>
    have hafter := h.change (w.proxies.change r)
    rw [hafter.span_eq, h.span_eq, lookup_note ht ha]

end PointerGuard.Proxies
