import PointerGuard.Proofs.Lifetimes.Registrations
import PointerGuard.Proofs.Session.Resize

namespace PointerGuard

variable {host : Host}

namespace Session

variable {α : Type} {s : Session} {l : Lifetimes} {ptr : Word}

/-- The call hands the block at `addr` on to be freed. -/
def handsOn (addr : Word) (s : Session) (c : Call) : Bool :=
  c = .free addr ∧ ((answer c).run s).1 = .ok (.freed true)

/-- The number of times that a run hands the block at `addr` on to be freed. -/
def handedOn (s : Session) (addr : Word) (cs : List Call) : Nat :=
  Runs.tally step (handsOn addr) s cs

/-- A violation is reported, and what is answered after it is the zero value. -/
theorem withGuard_of_error [Inhabited α] {act : Guarded .combined α} {v : Violation}
    {g : Guard .combined} (h : act.run s.guard = (.error v, g)) :
    ((withGuard act).run s).2 = ⟨g, s.reporter.raised v⟩ ∧
      ∀ a, ((withGuard act).run s).1 = .ok a → a = default := by
  by_cases hp : s.reporter.policy = .abort
  · rw [run_withGuard_of_abort hp h]
    exact ⟨rfl, fun a ha => by cases ha⟩
  · rw [run_withGuard_of_error hp h]
    exact ⟨rfl, fun a ha => (Except.ok.inj ha).symm⟩

/-- What a free does to the guard. -/
def release (ptr : Word) : Guarded .combined Bool := do
  let e ← Guard.loadSlot 1
  Guard.deallocate ptr e.key e.lock
  return true

theorem answer_free (hz : ptr ≠ 0) :
    answer (.free ptr) = (withGuard (release ptr) >>= fun done => pure (Reply.freed done)) := by
  have hfree : free ptr = withGuard (release ptr) := if_neg hz
  rw [← hfree]
  rfl

theorem answer_free_of_error (hz : ptr ≠ 0) {v : Violation}
    (h : (release ptr).run s.guard = (.error v, s.guard)) :
    ((answer (.free ptr)).run s).1 ≠ .ok (.freed true) ∧
      s.step (.free ptr) = ⟨s.guard, s.reporter.raised v⟩ := by
  obtain ⟨hstate, hzero⟩ := withGuard_of_error h
  refine ⟨fun hok => ?_, ?_⟩
  -- The zero value, which is answered after a violation, is not to hand on.
  · rw [answer_free hz] at hok
    obtain ⟨done, hdone, htrue⟩ := Action.run_bind_eq_ok_iff.mp hok
    cases hzero done hdone
    cases htrue
  · rw [Session.step, answer_free hz, run_map]
    exact hstate

/-- A free hands the block on after its release, or reports a violation and changes nothing else. -/
theorem free_cases (hl : s.guard.lifetimes = some l) (hz : ptr ≠ 0) :
    (∃ e l' g, s.guard.shadow.loadSlot 1 = .ok e ∧ l.deallocate ptr e.key e.lock = .ok l' ∧
      (answer (.free ptr)).run s = (.ok (.freed true), { s with guard := g })) ∨
    ∃ v, ((answer (.free ptr)).run s).1 ≠ .ok (.freed true) ∧
      s.step (.free ptr) = ⟨s.guard, s.reporter.raised v⟩ := by
  cases hs : s.guard.shadow.loadSlot 1 with
  | error v =>
    have hslot := Guard.run_loadSlot_of_error hs
    exact Or.inr ⟨v, answer_free_of_error hz (Action.run_bind_of_error hslot)⟩
  | ok e =>
    have hslot := Guard.run_loadSlot_of_ok hs
    cases hd : l.deallocate ptr e.key e.lock with
    | error v =>
      have hrun : (release ptr).run s.guard = (.error v, s.guard) := by
        rw [release, Action.run_bind_of_ok hslot]
        exact Action.run_bind_of_error (Guard.run_deallocate_of_error hl hd)
      exact Or.inr ⟨v, answer_free_of_error hz hrun⟩
    | ok l' =>
      obtain ⟨metrics, hrelease⟩ := Guard.run_deallocate_of_ok hl hd
      have hrun : (release ptr).run s.guard
          = (.ok true, { s.guard with lifetimes := some l', metrics }) := by
        rw [release, Action.run_bind_of_ok hslot, Action.run_bind_of_ok hrelease]
        rfl
      have hanswer : (answer (.free ptr)).run s = (.ok (.freed true),
          { s with guard := { s.guard with lifetimes := some l', metrics } }) := by
        rw [answer_free hz, Action.run_bind_of_ok (run_withGuard_of_ok hrun)]
        rfl
      exact Or.inl ⟨e, l', _, rfl, hd, hanswer⟩

/-- A call that hands a block on withdraws a record of its address. -/
theorem withdrawals_of_handsOn (hl : s.guard.lifetimes = some l) {addr : Word} {c : Call}
    (h : s.handsOn addr c = true) : l.withdrawals addr (s.requests c) = 1 := by
  obtain ⟨rfl, hok⟩ := of_decide_eq_true h
  have hz : addr ≠ 0 := by
    rintro rfl
    cases hok
  obtain ⟨e, l', g, hs, hd, _⟩ | ⟨v, hno, _⟩ := free_cases hl hz
  · have hrequests : s.requests (.free addr) = [.deallocate addr e.key e.lock] := by
      show releaseRequests s.guard addr = _
      rw [releaseRequests, if_neg hz, hs]
    have hserve : l.serve (.deallocate addr e.key e.lock) = (.ok none, l') := by
      rw [Lifetimes.serve, hd]
    rw [hrequests, Lifetimes.withdrawals, Runs.tally, hserve]
    simp [Runs.tally, Lifetimes.Request.withdraws]
  · exact absurd hok hno

theorem handedOn_le_withdrawals (addr : Word) {cs : List Call}
    (hends : Runs.Always step GoesOn s cs) (hl : s.guard.lifetimes = some l) :
    s.handedOn addr cs ≤ l.withdrawals addr (s.requestsOf cs) := by
  induction cs generalizing s l with
  | nil => exact Nat.le_refl 0
  | cons c cs ih =>
    obtain ⟨_, heffect⟩ := step_makes hends.1
    have hstep : (s.step c).guard.lifetimes = some (l.after (s.requests c)) := by
      rw [heffect.lifetimes, hl]
      rfl
    have hrest := ih hends.2 hstep
    have hsplit : l.withdrawals addr (s.requestsOf (c :: cs))
        = l.withdrawals addr (s.requests c)
          + (l.after (s.requests c)).withdrawals addr ((s.step c).requestsOf cs) :=
      Runs.tally_append
    have hfirst : (if s.handsOn addr c then 1 else 0) ≤ l.withdrawals addr (s.requests c) := by
      by_cases hon : s.handsOn addr c = true
      · rw [if_pos hon, withdrawals_of_handsOn hl hon]
      · rw [if_neg hon]
        exact Nat.zero_le _
    rw [hsplit]
    exact Nat.add_le_add hfirst hrest

variable {config : Config} {start : Guard .combined} {r : Reporter}

/-- An address is handed on to be freed no more often than it was registered, and a free that
reports a violation hands nothing on. -/
theorem handed_on_once_per_registration (hc : Guard.create host config = .ok start)
    (hfree : config.freeMap = true) (hl : start.lifetimes = some l) {cs : List Call}
    (hends : Runs.Always Session.step GoesOn ⟨start, r⟩ cs) :
    let s := Session.after ⟨start, r⟩ cs
    (∃ l' m, s.guard.lifetimes = some l' ∧ l'.freeMap = some m ∧
      ∀ addr, Session.handedOn ⟨start, r⟩ addr cs + m.copies addr
        ≤ l.registrations addr (Session.requestsOf ⟨start, r⟩ cs)) ∧
    ∀ ptr, (s.step (.free ptr)).reporter ≠ s.reporter →
      ((answer (.free ptr)).run s).1 ≠ .ok (.freed true) ∧
        (s.step (.free ptr)).guard = s.guard := by
  intro s
  obtain ⟨_, _, hlife⟩ := Guard.create_eq_ok hc
  obtain ⟨l₀, hl₀, hcl⟩ := hlife rfl
  cases hl.symm.trans hl₀
  rw [if_pos hfree] at hcl
  obtain ⟨m₀, hm₀, hblank⟩ := Lifetimes.copies_create hcl
  have hlife : s.guard.lifetimes = some (l.after (Session.requestsOf ⟨start, r⟩ cs)) := by
    rw [(after_makes hends).2.lifetimes]
    show start.lifetimes.map _ = _
    rw [hl]
    rfl
  obtain ⟨m, hm, _⟩ := Lifetimes.copies_after hm₀ 0 (Session.requestsOf ⟨start, r⟩ cs)
  refine ⟨⟨_, m, hlife, hm, fun addr => ?_⟩, fun ptr hreport => ?_⟩
  · obtain ⟨m', hm', hbalance⟩ :=
      Lifetimes.copies_after hm₀ addr (Session.requestsOf ⟨start, r⟩ cs)
    cases hm.symm.trans hm'
    have hhanded := handedOn_le_withdrawals addr hends hl
    rw [hblank addr] at hbalance
    omega
  · by_cases hz : ptr = 0
    · subst hz
      exact absurd rfl hreport
    · obtain ⟨_, _, g, _, _, hrun⟩ | ⟨v, hno, hstep⟩ := free_cases hlife hz
      · have hquiet : (s.step (.free ptr)).reporter = s.reporter := by rw [Session.step, hrun]
        exact absurd hquiet hreport
      · exact ⟨hno, by rw [hstep]⟩

/-- A block is moved and freed at its new address; a second free reports a violation. -/
theorem handed_on_once_per_registration_after_move :
    ∃ (start : Guard .combined) (l : Lifetimes), Guard.create .standard Config.standard = .ok start ∧
      start.lifetimes = some l ∧
      let r : Reporter := { policy := .silent, exitCode := 73, executable := "app", backtrace := "" }
      let first : Session := ⟨start, r⟩
      let calls := [.pushFrame 2, .malloc 0x20 0x500000000000,
        .storeSlot 1 ⟨0x500000000000, 0x500000000020, 2, heapLocksAddr⟩,
        .realloc 0x500000000000 0x40 0x500100000000, .free 0x500100000000]
      let s := first.after calls
      first.handedOn 0x500100000000 calls = 1 ∧
        l.registrations 0x500100000000 (first.requestsOf calls) = 1 ∧
        (∃ l' m, s.guard.lifetimes = some l' ∧ l'.freeMap = some m ∧
          m.copies 0x500100000000 = 0) ∧
        ((answer (.free 0x500100000000)).run s).1 ≠ .ok (.freed true) := by
  have hc : (Guard.create .standard Config.standard : Except _ (Guard .combined)) = .ok _ := rfl
  obtain ⟨⟨l', m, hl', hm, hcount⟩, hreport⟩ := handed_on_once_per_registration hc rfl rfl
    (always_goesOn
      (s := ⟨_, { policy := .silent, exitCode := 73, executable := "app", backtrace := "" }⟩)
      (by decide) [.pushFrame 2, .malloc 0x20 0x500000000000,
      .storeSlot 1 ⟨0x500000000000, 0x500000000020, 2, heapLocksAddr⟩,
      .realloc 0x500000000000 0x40 0x500100000000, .free 0x500100000000])
  refine ⟨_, _, hc, rfl, by decide, by decide, ⟨l', m, hl', hm, ?_⟩, (hreport _ (by decide)).1⟩
  have hbound : 1 + m.copies 0x500100000000 ≤ 1 := hcount 0x500100000000
  omega

end Session

end PointerGuard
