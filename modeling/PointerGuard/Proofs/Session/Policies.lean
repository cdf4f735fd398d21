import PointerGuard.Proofs.Session.Requests

namespace PointerGuard

namespace Metrics

/-- The counters after these violations, if the process goes on after each. -/
def counted (m : Metrics) (vs : List Violation) : Metrics :=
  vs.foldl (fun m v => m.recordSuppressed v.kind) m

/-- Suppressed violations, all kinds together. -/
def violations (m : Metrics) : Word :=
  m.spatialViolations + m.temporalViolations + m.resourceViolations + m.protocolViolations

variable {m : Metrics} {vs : List Violation}

theorem add_ofNat_succ (a : Word) (n : Nat) : a + .ofNat (n + 1) = a + 1 + .ofNat n := by
  rw [UInt64.ofNat_add, UInt64.add_comm (.ofNat n), UInt64.add_assoc]
  rfl

theorem suppressed_counted :
    (m.counted vs).suppressedViolations = m.suppressedViolations + .ofNat vs.length := by
  induction vs generalizing m with
  | nil => exact (UInt64.add_zero _).symm
  | cons v vs ih =>
    have hfirst : (m.recordSuppressed v.kind).suppressedViolations
        = m.suppressedViolations + 1 := by
      cases v.kind <;> rfl
    have hrest := ih (m := m.recordSuppressed v.kind)
    rw [List.length_cons, add_ofNat_succ, ← hfirst]
    exact hrest

theorem violations_recordSuppressed (m : Metrics) (kind : ViolationKind) :
    (m.recordSuppressed kind).violations = m.violations + 1 := by
  unfold violations
  cases kind <;> simp only [recordSuppressed, bump, Counter.ofKind] <;> ac_rfl

theorem violations_counted :
    (m.counted vs).violations = m.violations + .ofNat vs.length := by
  induction vs generalizing m with
  | nil => exact (UInt64.add_zero _).symm
  | cons v vs ih =>
    have hrest := ih (m := m.recordSuppressed v.kind)
    rw [List.length_cons, add_ofNat_succ, ← m.violations_recordSuppressed v.kind]
    exact hrest

end Metrics

namespace Reporter

variable {r : Reporter}

theorem policy_foldl_raised (r : Reporter) (vs : List Violation) :
    (vs.foldl raised r).policy = r.policy := by
  induction vs generalizing r with
  | nil => rfl
  | cons v vs ih => exact (ih (r.raised v)).trans (r.policy_raised v)

theorem foldl_raised_of_silent (hp : r.policy = .silent) (vs : List Violation) :
    vs.foldl raised r = { r with tally := r.tally.counted vs } := by
  induction vs generalizing r with
  | nil => rfl
  | cons v vs ih =>
    have hfirst : r.raised v = r.suppress v := by
      unfold raised Reporter.raise
      rw [hp]
    rw [List.foldl_cons, ih ((r.policy_raised v).trans hp), hfirst]
    rfl

theorem foldl_raised_of_proceed (hp : r.policy = .proceed) (vs : List Violation) :
    vs.foldl raised r = { r with
      tally := r.tally.counted vs
      printed := r.printed ++ (vs.map reportLine).toArray } := by
  induction vs generalizing r with
  | nil => simp [Metrics.counted]
  | cons v vs ih =>
    have hfirst : r.raised v = (r.print [reportLine v]).suppress v := by
      unfold raised Reporter.raise
      rw [hp]
    rw [List.foldl_cons, ih ((r.policy_raised v).trans hp), hfirst]
    simp [Metrics.counted, print, suppress]

theorem printed_raised_of_abort (hp : r.policy = .abort) (v : Violation) :
    (r.raised v).printed = r.printed ++ (reportLines v r.executable r.backtrace).toArray := by
  unfold raised Reporter.raise
  rw [hp]
  rfl

end Reporter

namespace Session

variable {α β : Type} {g g₁ g' : Guard .combined} {r : Reporter} {vs ws : List Violation}

/-- The step answers `a` and raises `vs` on its way from `g` to `g'`, if nothing stops it. -/
inductive Yields : {α : Type} → InSession α → Guard .combined → α → List Violation →
    Guard .combined → Prop
  | pure {α : Type} (a : α) (g : Guard .combined) : Yields (pure a) g a [] g
  | read {α : Type} (f : Guard .combined → α) (g : Guard .combined) :
      Yields (.read fun s => f s.guard) g (f g) [] g
  | done {α : Type} [Inhabited α] {act : Guarded .combined α} {a : α} {g g' : Guard .combined} :
      act.run g = (.ok a, g') → Yields (withGuard act) g a [] g'
  | failed {α : Type} [Inhabited α] {act : Guarded .combined α} {v : Violation}
      {g g' : Guard .combined} :
      act.run g = (.error v, g') → Yields (withGuard act) g default [v] g'
  | bind {α β : Type} {act : InSession α} {next : α → InSession β} {a : α} {b : β}
      {vs ws : List Violation} {g g₁ g' : Guard .combined} :
      Yields act g a vs g₁ → Yields (next a) g₁ b ws g' → Yields (act >>= next) g b (vs ++ ws) g'

/-- The calls raise `vs` on their way from `g` to `g'`, if nothing stops them. -/
inductive Course : Guard .combined → List Call → List Violation → Guard .combined → Prop
  | nil (g : Guard .combined) : Course g [] [] g
  | cons {g g₁ g' : Guard .combined} {c : Call} {cs : List Call} {reply : Reply}
      {vs ws : List Violation} :
      Yields (answer c) g reply vs g₁ → Course g₁ cs ws g' → Course g (c :: cs) (vs ++ ws) g'

namespace Yields

theorem run_of_not_abort {act : InSession α} {a : α} (h : Yields act g a vs g')
    (hp : r.policy ≠ .abort) : act.run ⟨g, r⟩ = (.ok a, ⟨g', vs.foldl Reporter.raised r⟩) := by
  induction h generalizing r with
  | pure a g => rfl
  | read f g => rfl
  | done hrun => exact run_withGuard_of_ok (s := ⟨_, r⟩) hrun
  | failed hrun => exact run_withGuard_of_error (s := ⟨_, r⟩) hp hrun
  | @bind _ _ _ _ _ _ vs _ _ _ _ _ _ ih ih' =>
    rw [Action.run_bind_of_ok (ih hp), List.foldl_append]
    exact ih' (r.policy_foldl_raised vs ▸ hp)

/-- Under the policy to abort, the first violation ends the process. -/
theorem run_of_abort {act : InSession α} {a : α} (h : Yields act g a vs g')
    (hp : r.policy = .abort) :
    (vs = [] → act.run ⟨g, r⟩ = (.ok a, ⟨g', r⟩)) ∧
      ∀ v rest, vs = v :: rest →
        ∃ g₁, act.run ⟨g, r⟩ = (.error ⟨r.exitCode⟩, ⟨g₁, r.raised v⟩) := by
  induction h with
  | pure a g => exact ⟨fun _ => rfl, fun v rest hv => by cases hv⟩
  | read f g => exact ⟨fun _ => rfl, fun v rest hv => by cases hv⟩
  | done hrun =>
    exact ⟨fun _ => run_withGuard_of_ok (s := ⟨_, r⟩) hrun, fun v rest hv => by cases hv⟩
  | failed hrun =>
    refine ⟨fun hv => (by cases hv), fun v rest hv => ?_⟩
    cases hv
    exact ⟨_, run_withGuard_of_abort (s := ⟨_, r⟩) hp hrun⟩
  | @bind _ _ _ _ _ _ vs ws _ _ _ _ _ ih ih' =>
    -- If the first part raises anything, the second is not reached.
    cases vs with
    | nil =>
      rw [List.nil_append, Action.run_bind_of_ok (ih.1 rfl)]
      exact ih'
    | cons v vs =>
      obtain ⟨g₁, hrun⟩ := ih.2 v vs rfl
      refine ⟨fun hv => (by cases hv), fun w rest hw => ?_⟩
      cases hw
      exact ⟨g₁, Action.run_bind_of_error hrun⟩

end Yields

/-- From every guard, the step yields something. -/
def Steady (act : InSession α) : Prop := ∀ g, ∃ a vs g', Yields act g a vs g'

namespace Steady

theorem pure (a : α) : Steady (pure a) := fun g => ⟨a, [], g, .pure a g⟩

theorem read (f : Guard .combined → α) : Steady (.read fun s => f s.guard) :=
  fun g => ⟨f g, [], g, .read f g⟩

theorem withGuard [Inhabited α] (act : Guarded .combined α) : Steady (withGuard act) := by
  intro g
  cases hr : act.run g with
  | mk answer g' =>
    cases answer with
    | ok a => exact ⟨a, [], g', .done hr⟩
    | error v => exact ⟨default, [v], g', .failed hr⟩

theorem bind {act : InSession α} {next : α → InSession β} (h : Steady act)
    (hn : ∀ a, Steady (next a)) : Steady (act >>= next) := by
  intro g
  obtain ⟨a, vs, g₁, hfirst⟩ := h g
  obtain ⟨b, ws, g', hsecond⟩ := hn a g₁
  exact ⟨b, vs ++ ws, g', hfirst.bind hsecond⟩

theorem map {act : InSession α} (h : Steady act) (f : α → β) :
    Steady (act >>= fun a => Pure.pure (f a)) :=
  h.bind fun a => pure (f a)

theorem quietly (act : Guarded .combined Unit) : Steady (quietly act) := (withGuard act).map _

end Steady

theorem steady_malloc (size result : Word) : Steady (malloc size result) :=
  (Steady.withGuard _).map _

theorem steady_realloc (ptr size result : Word) : Steady (realloc ptr size result) := by
  unfold realloc
  split
  next => exact steady_malloc size result
  next => exact (Steady.withGuard _).bind fun old => (Steady.withGuard _).map _

theorem steady_free (ptr : Word) : Steady (free ptr) := by
  unfold free
  split
  next => exact .pure false
  next => exact .withGuard _

theorem steady_registerEnvironment (holder vector : Word) (strings : List (Word × Word)) :
    Steady (registerEnvironment holder vector strings) := by
  unfold registerEnvironment
  split
  next => exact .pure ()
  next => exact .withGuard _

/-- Every call yields something. -/
theorem steady_answer (c : Call) : Steady (answer c) := by
  cases c with
  | init => exact .pure _
  | shrinkBounds new old => exact .pure _
  | globalLock => exact .read fun g => Reply.word g.globalLock
  | introspect ptr e slot =>
    exact .read fun g =>
      Reply.flag (g.introspect ptr e (if slot < 0 then none else some slot.toNat)).isValid
  | malloc size result => exact (steady_malloc size result).map _
  | calloc count size result => exact (steady_malloc _ result).map _
  | realloc ptr size result => exact (steady_realloc ptr size result).map _
  | free ptr => exact (steady_free ptr).map _
  | registerEnvironment holder vector strings =>
    exact (steady_registerEnvironment holder vector strings).map _
  | copyBytes dest src size => exact ((Steady.withGuard _).map _).map _
  | fillBytes dest size => exact ((Steady.withGuard _).map _).map _
  | loadMetadata addr => exact (Steady.withGuard _).map _
  | loadField field addr => exact (Steady.withGuard _).map _
  | loadLane vector index => exact (Steady.withGuard _).map _
  | copyMetadata dest src size => exact (Steady.withGuard _).map _
  | loadSlotField field slot => exact (Steady.withGuard _).map _
  | openProxy slot => exact (Steady.withGuard _).map _
  | copyProxy proxy => exact (Steady.withGuard _).map _
  | nextVariadic proxy => exact (Steady.withGuard _).map _
  | loadProxySlot slot => exact (Steady.withGuard _).map _
  | attachedProxy addr => exact (Steady.withGuard _).map _
  | allocate ptr => exact (Steady.withGuard _).map _
  | stackAllocate => exact (Steady.withGuard _).map _
  | registerArguments vector strings => exact (Steady.withGuard _).map _
  | _ => exact .quietly _

theorem exists_course (g : Guard .combined) (cs : List Call) : ∃ vs g', Course g cs vs g' := by
  induction cs generalizing g with
  | nil => exact ⟨[], g, .nil g⟩
  | cons c cs ih =>
    obtain ⟨reply, vs, g₁, hfirst⟩ := steady_answer c g
    obtain ⟨ws, g', hrest⟩ := ih g₁
    exact ⟨vs ++ ws, g', .cons hfirst hrest⟩

namespace Course

variable {cs : List Call}

theorem after_of_not_abort (h : Course g cs vs g') (hp : r.policy ≠ .abort) :
    Session.after ⟨g, r⟩ cs = ⟨g', vs.foldl Reporter.raised r⟩ := by
  induction h generalizing r with
  | nil g => rfl
  | @cons g g₁ g' c cs reply vs ws hfirst _ ih =>
    have hstep : Session.step ⟨g, r⟩ c = ⟨g₁, vs.foldl Reporter.raised r⟩ := by
      rw [Session.step, hfirst.run_of_not_abort hp]
    have hrest := ih (r.policy_foldl_raised vs ▸ hp)
    rw [Session.after, List.foldl_cons, hstep, List.foldl_append]
    exact hrest

/-- Under the policy to abort, a run comes to its end exactly if it raises nothing, and it is then
the same run. -/
theorem of_abort (h : Course g cs vs g') (hp : r.policy = .abort) :
    (Runs.Always Session.step GoesOn ⟨g, r⟩ cs ↔ vs = []) ∧
      (vs = [] → Session.after ⟨g, r⟩ cs = ⟨g', r⟩) := by
  induction h with
  | nil g => exact ⟨iff_of_true trivial rfl, fun _ => rfl⟩
  | @cons g g₁ g' c cs reply vs ws hfirst _ ih =>
    obtain ⟨hends, hafter⟩ := ih
    obtain ⟨hquiet, hstops⟩ := hfirst.run_of_abort hp
    cases vs with
    | nil =>
      have hstep : Session.step ⟨g, r⟩ c = ⟨g₁, r⟩ := by rw [Session.step, hquiet rfl]
      have hgoes : GoesOn ⟨g, r⟩ c := ⟨reply, by rw [hquiet rfl]⟩
      rw [List.nil_append, Session.after, List.foldl_cons, Runs.Always, hstep]
      exact ⟨(and_iff_right hgoes).trans hends, hafter⟩
    | cons v vs =>
      obtain ⟨g₂, hrun⟩ := hstops v vs rfl
      refine ⟨iff_of_false ?_ (by simp), fun hnone => by simp at hnone⟩
      rintro ⟨⟨reply', hreply⟩, _⟩
      rw [hrun] at hreply
      cases hreply

end Course

/-- The policies answer alike, count alike and report the same violations, until the one to abort
ends the process at the first of them. -/
theorem policy_changes_no_result (g : Guard .combined) (r : Reporter) (cs : List Call) (c : Call) :
    let start (policy : ViolationPolicy) : Session := ⟨g, { r with policy }⟩
    let reached (policy : ViolationPolicy) : Session := (start policy).after cs
    ∃ vs g' reply ws g'', Course g cs vs g' ∧ Yields (answer c) g' reply ws g'' ∧
      reached .silent = ⟨g', { r with policy := .silent, tally := r.tally.counted vs }⟩ ∧
      reached .proceed = ⟨g', { r with
        policy := .proceed
        tally := r.tally.counted vs
        printed := r.printed ++ (vs.map reportLine).toArray }⟩ ∧
      (r.tally.counted vs).suppressedViolations
        = r.tally.suppressedViolations + .ofNat vs.length ∧
      (r.tally.counted vs).violations = r.tally.violations + .ofNat vs.length ∧
      ((answer c).run (reached .silent)).1 = .ok reply ∧
      ((answer c).run (reached .proceed)).1 = .ok reply ∧
      (Runs.Always Session.step GoesOn (start .abort) cs ↔ vs = []) ∧
      (vs = [] → reached .abort = ⟨g', { r with policy := .abort }⟩ ∧
        (ws = [] →
          (answer c).run (reached .abort) = (.ok reply, ⟨g'', { r with policy := .abort }⟩)) ∧
        ∀ v rest, ws = v :: rest → ((answer c).run (reached .abort)).1 = .error ⟨r.exitCode⟩ ∧
          ((reached .abort).step c).reporter.printed
            = r.printed ++ (reportLines v r.executable r.backtrace).toArray) := by
  intro start reached
  have hsilentGoes : ViolationPolicy.silent ≠ .abort := by decide
  have hproceedGoes : ViolationPolicy.proceed ≠ .abort := by decide
  obtain ⟨vs, g', hcourse⟩ := exists_course g cs
  obtain ⟨reply, ws, g'', hnext⟩ := steady_answer c g'
  have hsilent : reached .silent = ⟨g', { r with
      policy := .silent, tally := r.tally.counted vs }⟩ := by
    have hrun := hcourse.after_of_not_abort (r := { r with policy := .silent }) hsilentGoes
    rwa [Reporter.foldl_raised_of_silent rfl] at hrun
  have hproceed : reached .proceed = ⟨g', { r with
      policy := .proceed
      tally := r.tally.counted vs
      printed := r.printed ++ (vs.map reportLine).toArray }⟩ := by
    have hrun := hcourse.after_of_not_abort (r := { r with policy := .proceed }) hproceedGoes
    rwa [Reporter.foldl_raised_of_proceed rfl] at hrun
  obtain ⟨hends, hsame⟩ := hcourse.of_abort (r := { r with policy := .abort }) rfl
  refine ⟨vs, g', reply, ws, g'', hcourse, hnext, hsilent, hproceed, Metrics.suppressed_counted,
    Metrics.violations_counted, ?_, ?_, hends, fun hnone => ?_⟩
  · rw [hsilent, hnext.run_of_not_abort hsilentGoes]
  · rw [hproceed, hnext.run_of_not_abort hproceedGoes]
  · obtain ⟨hquiet, hstops⟩ := hnext.run_of_abort (r := { r with policy := .abort }) rfl
    have hreached : reached .abort = ⟨g', { r with policy := .abort }⟩ := hsame hnone
    rw [hreached]
    refine ⟨rfl, hquiet, fun v rest hv => ?_⟩
    obtain ⟨g₁, hrun⟩ := hstops v rest hv
    rw [Session.step, hrun]
    exact ⟨rfl, Reporter.printed_raised_of_abort rfl v⟩

end Session

end PointerGuard
