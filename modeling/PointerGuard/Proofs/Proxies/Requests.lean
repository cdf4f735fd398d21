import PointerGuard.Proofs.Proxies.Cursors

namespace PointerGuard.Proxies

inductive Request where
  | openSpan (span : SlotSpan)
  | span (proxy : Word)
  | advance (proxy : Word) (words : Nat)
  | duplicate (proxy : Word)
  | close (proxy : Word)
deriving DecidableEq, Repr

namespace Request

/-- The handle that a request is about. -/
def proxy? : Request → Option Word
  | .openSpan _ => none
  | .span proxy | .advance proxy _ | .duplicate proxy | .close proxy => some proxy

/-- The handle whose cursor a request moves or closes. -/
def target? : Request → Option Word
  | .advance proxy _ | .close proxy => some proxy
  | .openSpan _ | .span _ | .duplicate _ => none

/-- A request that asks for a new handle. -/
def opens : Request → Bool
  | .openSpan _ | .duplicate _ => true
  | .span _ | .advance _ _ | .close _ => false

end Request

/-- What a request is answered if it succeeds. -/
inductive Reply where
  | handle (proxy : Word)
  | span (span : SlotSpan)
  | done
deriving DecidableEq, Repr

def serve (p : Proxies) : Request → Except Violation Reply × Proxies
  | .openSpan span =>
    match p.openSpan span with
    | .ok (proxy, p') => (.ok (.handle proxy), p')
    | .error v => (.error v, p)
  | .span proxy =>
    match p.span proxy with
    | .ok span => (.ok (.span span), p)
    | .error v => (.error v, p)
  | .advance proxy words =>
    match p.advance proxy words with
    | .ok p' => (.ok .done, p')
    | .error v => (.error v, p)
  | .duplicate proxy =>
    match p.duplicate proxy with
    | .ok (copy, p') => (.ok (.handle copy), p')
    | .error v => (.error v, p)
  | .close proxy =>
    match p.close proxy with
    | .ok p' => (.ok .done, p')
    | .error v => (.error v, p)

def step (p : Proxies) (r : Request) : Proxies := (p.serve r).2

variable {p p' : Proxies} {r : Request} {a : Except Violation Reply} {proxy : Word}
  {span : SlotSpan} {v : Violation}

theorem openSpan_eq_error_iff : p.openSpan span = .error v ↔
    p.closed = [] ∧ p.capacity ≤ p.spans.size ∧ v = .exhausted .vaArgProxies := by
  unfold Proxies.openSpan
  cases hc : p.closed with
  | cons i closed => simp
  | nil =>
    by_cases hs : p.spans.size < p.capacity
    · simp [hs]
    · simp [hs, Nat.le_of_not_lt hs, eq_comm]

/-- A new handle makes the closed ones fewer, or it lengthens the table. -/
theorem openSpan_counts (ho : p.openSpan span = .ok (proxy, p')) :
    p'.capacity = p.capacity ∧ p'.spans.size + p.closed.length
      = p.spans.size + p'.closed.length + 1 := by
  unfold Proxies.openSpan at ho
  split at ho
  next i closed hclosed =>
    cases Except.ok.inj ho
    refine ⟨rfl, ?_⟩
    rw [hclosed, List.length_cons, Array.size_setIfInBounds]
    rfl
  next hclosed =>
    split at ho
    next =>
      cases Except.ok.inj ho
      refine ⟨rfl, ?_⟩
      rw [Array.size_push]
      exact Nat.add_right_comm ..
    next => cases ho

theorem Sound.handle_of_openSpan (h : p.Sound) (ho : p.openSpan span = .ok (proxy, p')) :
    proxy ≠ 0 ∧ proxy.toNat ≤ p.capacity := by
  obtain ⟨hsound, _, hcursor⟩ := h.openSpan ho
  have hopen : p'.cursor proxy = some span := by rw [hcursor, if_pos rfl]
  obtain ⟨hcapacity, _⟩ := openSpan_counts ho
  obtain ⟨hz, _⟩ := cursor_eq_some_iff.mp hopen
  have hlt := cursor_lt_size hopen
  have hroom := hsound.room
  exact ⟨hz, by omega⟩

theorem span_eq_error_iff :
    p.span proxy = .error v ↔ p.cursor proxy = none ∧ v = .unknownProxy proxy := by
  rw [span_eq]
  cases p.cursor proxy <;> simp [eq_comm]

theorem advance_eq_error_iff {words : Nat} :
    p.advance proxy words = .error v ↔ p.cursor proxy = none ∧ v = .unknownProxy proxy := by
  rw [← span_eq_error_iff, Proxies.advance]
  cases p.span proxy <;> simp

theorem close_eq_error_iff :
    p.close proxy = .error v ↔ p.cursor proxy = none ∧ v = .unknownProxy proxy := by
  rw [← span_eq_error_iff, Proxies.close]
  cases p.span proxy <;> simp

theorem advance_counts {words : Nat} (ha : p.advance proxy words = .ok p') :
    p'.capacity = p.capacity ∧ p'.spans.size = p.spans.size ∧ p'.closed = p.closed := by
  unfold Proxies.advance at ha
  split at ha
  next => cases ha
  next =>
    cases Except.ok.inj ha
    exact ⟨rfl, Array.size_setIfInBounds, rfl⟩

theorem close_counts (hc : p.close proxy = .ok p') : p'.capacity = p.capacity ∧
    p'.spans.size = p.spans.size ∧ p'.closed.length = p.closed.length + 1 := by
  unfold Proxies.close at hc
  split at hc
  next => cases hc
  next =>
    cases Except.ok.inj hc
    exact ⟨rfl, Array.size_setIfInBounds, rfl⟩

/-- The span that a request asks a new handle for. -/
def opening? (p : Proxies) : Request → Option SlotSpan
  | .openSpan span => some span
  | .duplicate proxy => p.cursor proxy
  | .span _ | .advance _ _ | .close _ => none

/-- What serving a request can do. -/
inductive Change (p : Proxies) : Request → Except Violation Reply → Proxies → Prop
  | unknown {r : Request} {proxy : Word} : r.proxy? = some proxy → p.cursor proxy = none →
      Change p r (.error (.unknownProxy proxy)) p
  | full {r : Request} {span : SlotSpan} {v : Violation} : p.opening? r = some span →
      p.openSpan span = .error v → Change p r (.error v) p
  | opened {r : Request} {span : SlotSpan} {proxy : Word} {p' : Proxies} :
      p.opening? r = some span → p.openSpan span = .ok (proxy, p') →
      Change p r (.ok (.handle proxy)) p'
  | read {proxy : Word} {span : SlotSpan} : p.cursor proxy = some span →
      Change p (.span proxy) (.ok (.span span)) p
  | moved {proxy : Word} {words : Nat} {p' : Proxies} : p.advance proxy words = .ok p' →
      Change p (.advance proxy words) (.ok .done) p'
  | closed {proxy : Word} {p' : Proxies} : p.close proxy = .ok p' →
      Change p (.close proxy) (.ok .done) p'

theorem change (p : Proxies) (r : Request) : Change p r (p.serve r).1 (p.step r) := by
  rw [step]
  cases r with
  | openSpan span =>
    rw [serve]
    cases ho : p.openSpan span with
    | error v => exact .full rfl ho
    | ok taken => exact .opened rfl ho
  | span proxy =>
    rw [serve]
    cases hs : p.span proxy with
    | error v =>
      obtain ⟨hnone, rfl⟩ := span_eq_error_iff.mp hs
      exact .unknown rfl hnone
    | ok span => exact .read (span_eq_ok_iff.mp hs)
  | advance proxy words =>
    rw [serve]
    cases ha : p.advance proxy words with
    | error v =>
      obtain ⟨hnone, rfl⟩ := advance_eq_error_iff.mp ha
      exact .unknown rfl hnone
    | ok p' => exact .moved ha
  | duplicate proxy =>
    cases hs : p.span proxy with
    | error v =>
      rw [serve, Proxies.duplicate, hs]
      obtain ⟨hnone, rfl⟩ := span_eq_error_iff.mp hs
      exact .unknown rfl hnone
    | ok span =>
      have hcopy : p.duplicate proxy = p.openSpan span := by rw [Proxies.duplicate, hs]
      have hopen : p.opening? (.duplicate proxy) = some span := span_eq_ok_iff.mp hs
      rw [serve, hcopy]
      cases ho : p.openSpan span with
      | error v => exact .full hopen ho
      | ok taken => exact .opened hopen ho
  | close proxy =>
    rw [serve]
    cases hc : p.close proxy with
    | error v =>
      obtain ⟨hnone, rfl⟩ := close_eq_error_iff.mp hc
      exact .unknown rfl hnone
    | ok p' => exact .closed hc

theorem Change.capacity (hc : Change p r a p') : p'.capacity = p.capacity := by
  cases hc with
  | opened _ ho => exact (openSpan_counts ho).1
  | moved ha => exact (advance_counts ha).1
  | closed hc => exact (close_counts hc).1
  | _ => rfl

theorem cursor_of_opening (ho : p.opening? r = some span) (hp : r.proxy? = some proxy) :
    p.cursor proxy = some span := by
  cases r with
  | duplicate copied =>
    cases hp
    exact ho
  | openSpan other => cases hp
  | _ => cases ho

theorem Change.answer_of_unknown (hc : Change p r a p') (hp : r.proxy? = some proxy)
    (hnone : p.cursor proxy = none) : a = .error (.unknownProxy proxy) := by
  cases hc with
  | unknown hq _ =>
    cases hp.symm.trans hq
    rfl
  | full hopen _ => cases hnone.symm.trans (cursor_of_opening hopen hp)
  | opened hopen _ => cases hnone.symm.trans (cursor_of_opening hopen hp)
  | read hs =>
    cases hp
    cases hnone.symm.trans hs
  | moved ha =>
    cases hp
    cases (advance_eq_error_iff.mpr ⟨hnone, rfl⟩).symm.trans ha
  | closed hc =>
    cases hp
    cases (close_eq_error_iff.mpr ⟨hnone, rfl⟩).symm.trans hc

theorem Change.answer_of_full (hc : Change p r a p') (hopen : p.opening? r = some span)
    (ho : p.openSpan span = .error v) : a = .error v := by
  cases hc with
  | unknown hp hnone => cases hnone.symm.trans (cursor_of_opening hopen hp)
  | full hopen' ho' =>
    cases hopen.symm.trans hopen'
    exact congrArg Except.error (Except.error.inj (ho'.symm.trans ho))
  | opened hopen' ho' =>
    cases hopen.symm.trans hopen'
    cases ho.symm.trans ho'
  | read _ => cases hopen
  | moved _ => cases hopen
  | closed _ => cases hopen

theorem step_of_error (he : (p.serve r).1 = .error v) : p.step r = p := by
  have hc := p.change r
  rw [he] at hc
  generalize p.step r = p' at hc
  cases hc <;> rfl

end PointerGuard.Proxies
