import PointerGuard.Proofs.Guard.Calls
import PointerGuard.Proofs.Guard.Requests
import PointerGuard.Session.Call

namespace PointerGuard

namespace Reporter

variable {r : Reporter}

/-- The reporter after a violation. -/
def raised (r : Reporter) (v : Violation) : Reporter := (Reporter.raise v r).2

theorem raise_of_not_abort (hp : r.policy ≠ .abort) (v : Violation) :
    Reporter.raise v r = (.ok (), r.raised v) := by
  unfold raised Reporter.raise
  cases h : r.policy with
  | abort => exact absurd h hp
  | proceed => rfl
  | silent => rfl

theorem raise_of_abort (hp : r.policy = .abort) (v : Violation) :
    Reporter.raise v r = (.error ⟨r.exitCode⟩, r.raised v) := by
  unfold raised Reporter.raise
  rw [hp]

theorem policy_raised (r : Reporter) (v : Violation) : (r.raised v).policy = r.policy := by
  unfold raised Reporter.raise
  cases h : r.policy <;> exact h

/-- Violations after which the process went on. -/
def suppressed (r : Reporter) : Word := r.tally.get .suppressedViolations

theorem suppressed_raised (hp : r.policy ≠ .abort) (v : Violation) :
    (r.raised v).suppressed = r.suppressed + 1 := by
  have hcount (m : Metrics) : (m.recordSuppressed v.kind).get .suppressedViolations
      = m.get .suppressedViolations + 1 := by
    cases v.kind <;> rfl
  unfold raised Reporter.raise
  cases h : r.policy with
  | abort => exact absurd h hp
  | proceed => exact hcount r.tally
  | silent => exact hcount r.tally

theorem suppressed_raised_ne (hp : r.policy ≠ .abort) (v : Violation) :
    (r.raised v).suppressed ≠ r.suppressed := by
  rw [suppressed_raised hp]
  simp

end Reporter

namespace Guard

variable {mode : Mode} {g : Guard mode}

theorem run_loadSlot_of_ok {slot : Nat} {e : Metadata} (h : g.shadow.loadSlot slot = .ok e) :
    (loadSlot slot).run g = (.ok e, g) :=
  (run_askShadow (·.loadSlot slot) g).trans (by rw [h])

theorem run_loadSlot_of_error {slot : Nat} {v : Violation}
    (h : g.shadow.loadSlot slot = .error v) : (loadSlot slot).run g = (.error v, g) :=
  (run_askShadow (·.loadSlot slot) g).trans (by rw [h])

theorem run_storeNullReturn_of_ok {shadow : ShadowStack mode}
    (h : g.shadow.storeSlot 0 .unknown = .ok shadow) :
    storeNullReturn.run g = (.ok (), { g with shadow }) :=
  run_updateShadow_of_ok (f := (·.storeSlot 0 .unknown)) h

end Guard

namespace Session

open Guard (Effect)

variable {α β : Type} {s : Session} {rs : List Lifetimes.Request}

theorem run_withGuard_of_ok [Inhabited α] {act : Guarded .combined α} {a : α} {g : Guard .combined}
    (h : act.run s.guard = (.ok a, g)) :
    (withGuard act).run s = (.ok a, { s with guard := g }) := by
  show withGuard act s = _
  unfold withGuard
  rw [show act s.guard = (.ok a, g) from h]

theorem run_withGuard_raise [Inhabited α] {act : Guarded .combined α} {v : Violation}
    {g : Guard .combined} (h : act.run s.guard = (.error v, g)) :
    (withGuard act).run s = (raise v >>= fun _ => pure default).run { s with guard := g } := by
  show withGuard act s = _
  unfold withGuard
  rw [show act s.guard = (.error v, g) from h]
  rfl

theorem run_withGuard_of_error [Inhabited α] (hp : s.reporter.policy ≠ .abort)
    {act : Guarded .combined α} {v : Violation} {g : Guard .combined}
    (h : act.run s.guard = (.error v, g)) :
    (withGuard act).run s = (.ok default, ⟨g, s.reporter.raised v⟩) := by
  have hraise : (raise v).run { s with guard := g } = (.ok (), ⟨g, s.reporter.raised v⟩) := by
    show Action.on reporter (fun s reporter => { s with reporter }) (Reporter.raise v) _ = _
    unfold Action.on
    rw [Reporter.raise_of_not_abort hp]
  rw [run_withGuard_raise h, Action.run_bind_of_ok hraise]
  rfl

theorem run_withGuard_of_abort [Inhabited α] (hp : s.reporter.policy = .abort)
    {act : Guarded .combined α} {v : Violation} {g : Guard .combined}
    (h : act.run s.guard = (.error v, g)) :
    (withGuard act).run s = (.error ⟨s.reporter.exitCode⟩, ⟨g, s.reporter.raised v⟩) := by
  have hraise : (raise v).run { s with guard := g }
      = (.error ⟨s.reporter.exitCode⟩, ⟨g, s.reporter.raised v⟩) := by
    show Action.on reporter (fun s reporter => { s with reporter }) (Reporter.raise v) _ = _
    unfold Action.on
    rw [Reporter.raise_of_abort hp]
  rw [run_withGuard_raise h, Action.run_bind_of_error hraise]

/-- The step keeps the policy; unless that is to abort, it comes to its end; and if it does, it made
these requests to the lifetimes. -/
structure Makes (s : Session) (rs : List Lifetimes.Request) (act : InSession α) : Prop where
  policy : (act.run s).2.reporter.policy = s.reporter.policy
  ends : s.reporter.policy ≠ .abort → ∃ a, (act.run s).1 = .ok a
  effect : ∀ a, (act.run s).1 = .ok a → Effect (fun _ => True) rs s.guard (act.run s).2.guard

namespace Makes

theorem pure (s : Session) (a : α) : s.Makes [] (pure a) :=
  ⟨rfl, fun _ => ⟨a, rfl⟩, fun _ _ => .refl _ _⟩

theorem read (s : Session) (f : Session → α) : s.Makes [] (.read f) :=
  ⟨rfl, fun _ => ⟨f s, rfl⟩, fun _ _ => .refl _ _⟩

theorem map {act : InSession α} (h : s.Makes rs act) (f : α → β) :
    s.Makes rs (act >>= fun a => Pure.pure (f a)) := by
  obtain ⟨hpolicy, hends, heffect⟩ := h
  cases hr : act.run s with
  | mk r s' =>
    rw [hr] at hpolicy hends heffect
    cases r with
    | ok a =>
      have hrun : (act >>= fun a => Pure.pure (f a)).run s = (.ok (f a), s') :=
        Action.run_bind_of_ok hr
      refine ⟨?_, fun _ => ⟨f a, ?_⟩, fun _ _ => ?_⟩ <;> rw [hrun]
      · exact hpolicy
      · exact heffect a rfl
    | error e =>
      have hrun : (act >>= fun a => Pure.pure (f a)).run s = (.error e, s') :=
        Action.run_bind_of_error hr
      refine ⟨?_, fun hp => ?_, fun b hb => ?_⟩
      · rw [hrun]
        exact hpolicy
      · obtain ⟨a, ha⟩ := hends hp
        cases ha
      · rw [hrun] at hb
        cases hb

theorem withGuard [Inhabited α] {act : Guarded .combined α}
    (h : Effect (fun _ => True) rs s.guard (act.run s.guard).2) : s.Makes rs (withGuard act) := by
  cases hr : act.run s.guard with
  | mk a g =>
    rw [hr] at h
    cases a with
    | ok a =>
      have hrun := run_withGuard_of_ok hr
      refine ⟨?_, fun _ => ⟨a, ?_⟩, fun _ _ => ?_⟩ <;> rw [hrun]
      exact h
    | error v =>
      by_cases hp : s.reporter.policy = .abort
      · have hrun := run_withGuard_of_abort hp hr
        refine ⟨?_, fun hn => absurd hp hn, fun b hb => ?_⟩
        · rw [hrun]
          exact s.reporter.policy_raised v
        · rw [hrun] at hb
          cases hb
      · have hrun := run_withGuard_of_error hp hr
        refine ⟨?_, fun _ => ⟨default, ?_⟩, fun _ _ => ?_⟩ <;> rw [hrun]
        · exact s.reporter.policy_raised v
        · exact h

theorem quietly {act : Guarded .combined Unit}
    (h : Effect (fun _ => True) rs s.guard (act.run s.guard).2) : s.Makes rs (quietly act) :=
  (withGuard h).map _

end Makes

/-- The entries of a block follow it to `result`. -/
def follows (g : Guard .combined) (ptr size result : Word) (old : Metadata) : Bool :=
  ((do Guard.preallocate result; Guard.copyMetadata result ptr (keptBytes old size) :
    Guarded .combined Nat).run g).1.isOk

def publishRequests (g : Guard .combined) (block : Word) : List Lifetimes.Request :=
  if block = 0 then [] else g.requests (.allocate block)

def resizeRequests (g : Guard .combined) (ptr size result : Word) (old : Metadata) :
    List Lifetimes.Request :=
  if result = 0 then
    if size = 0 ∧ (g.shadow.storeSlot 0 .unknown).isOk then [.deallocate ptr old.key old.lock]
    else []
  else if ptr = result then []
  else if follows g ptr size result old then [.relocate ptr result old.key]
  else []

def releaseRequests (g : Guard .combined) (ptr : Word) : List Lifetimes.Request :=
  if ptr = 0 then []
  else
    match g.shadow.loadSlot 1 with
    | .ok e => [.deallocate ptr e.key e.lock]
    | .error _ => []

/-- The requests that a call makes to the lifetimes. -/
def requests (s : Session) : Call → List Lifetimes.Request
  | .allocate ptr => s.guard.requests (.allocate ptr)
  | .deallocate ptr key lock => [.deallocate ptr key lock]
  | .stackAllocate => [.stackAllocate]
  | .stackDeallocate key => [.stackDeallocate key]
  | .malloc _ result => publishRequests s.guard result
  | .calloc _ _ result => publishRequests s.guard result
  | .free ptr => releaseRequests s.guard ptr
  | .realloc ptr size result =>
    if ptr = 0 then publishRequests s.guard result
    else resizeRequests s.guard ptr size result ((s.guard.shadow.loadSlot 1).toOption.getD default)
  | _ => []

theorem makes_publish (block size : Word) :
    s.Makes (publishRequests s.guard block) (publish block size) := by
  refine .withGuard ?_
  unfold publishRequests
  split
  next => exact Guard.causes_storeSlot _ 0 .unknown s.guard
  next =>
    exact (Guard.effect_allocateObject _ block size s.guard).bind fun e =>
      Guard.causes_storeSlot _ 0 e

theorem makes_malloc (size result : Word) :
    s.Makes (publishRequests s.guard result) (malloc size result) :=
  (makes_publish result size).map _

theorem makes_free (ptr : Word) :
    s.Makes (releaseRequests s.guard ptr) (free ptr) := by
  unfold releaseRequests free
  split
  next => exact .pure s false
  next =>
    refine .withGuard ?_
    cases hs : s.guard.shadow.loadSlot 1 with
    | error v =>
      rw [Action.run_bind_of_error (Guard.run_loadSlot_of_error hs)]
      exact .refl _ _
    | ok e =>
      rw [Action.run_bind_of_ok (Guard.run_loadSlot_of_ok hs)]
      exact ((Guard.causes_deallocate _ ptr e.key e.lock).bind fun _ => .pure _ _) s.guard

/-- A step that makes no request leaves it to what comes after. -/
theorem effect_bind_of_ok {mode : Mode} {g g' : Guard mode} {W : Nat → Prop}
    {act : Guarded mode α} {next : α → Guarded mode β} {a : α} (hrun : act.run g = (.ok a, g'))
    (h : Effect W [] g g') (hn : Effect W rs g' ((next a).run g').2) :
    Effect W rs g ((act >>= next).run g).2 := by
  rw [Action.run_bind_of_ok hrun]
  exact h.trans hn

theorem effect_of_run {mode : Mode} {g g' : Guard mode} {W : Nat → Prop}
    {act : Guarded mode α} {r : Except Violation α} (h : Guard.Causes W rs act)
    (hrun : act.run g = (r, g')) : Effect W rs g g' := by
  have heffect := h g
  rwa [hrun] at heffect

theorem effect_dropped (g : Guard .combined) (ptr size : Word) (old : Metadata) :
    Effect (fun _ => True)
      (if size = 0 ∧ (g.shadow.storeSlot 0 .unknown).isOk then [.deallocate ptr old.key old.lock]
        else []) g
      ((do
        Guard.storeNullReturn
        if size = 0 then Guard.deallocate ptr old.key old.lock :
          Guarded .combined Unit).run g).2 := by
  cases hs : g.shadow.storeSlot 0 .unknown with
  | error v =>
    have hstore : Guard.storeNullReturn.run g = (.error v, g) :=
      Guard.run_updateShadow_of_error (f := (·.storeSlot 0 .unknown)) hs
    rw [Action.run_bind_of_error hstore, if_neg fun h => by cases h.2]
    exact .refl _ _
  | ok shadow =>
    have hstore := Guard.run_storeNullReturn_of_ok hs
    have hfirst := effect_of_run (Guard.causes_storeSlot (fun _ => True) 0 .unknown) hstore
    by_cases hsize : size = 0
    · rw [if_pos ⟨hsize, rfl⟩, if_pos hsize]
      exact effect_bind_of_ok hstore hfirst (Guard.causes_deallocate _ ptr old.key old.lock _)
    · rw [if_neg fun h => hsize h.1, if_neg hsize]
      exact effect_bind_of_ok hstore hfirst (.refl _ _)

theorem effect_moved (g : Guard .combined) (ptr size result : Word) (old e : Metadata) :
    Effect (fun _ => True)
      (if follows g ptr size result old then [.relocate ptr result old.key] else []) g
      ((do
        Guard.preallocate result
        let _ ← Guard.copyMetadata result ptr (keptBytes old size)
        Guard.relocate ptr result old.key
        Guard.storeReturn e : Guarded .combined Unit).run g).2 := by
  unfold follows
  cases hpre : (Guard.preallocate result).run g with
  | mk r g₁ =>
    have hfirst : Effect (fun _ => True) [] g g₁ :=
      effect_of_run (.onTrie fun _ => .preallocate result) hpre
    cases r with
    | error v =>
      rw [Action.run_bind_of_error hpre, Action.run_bind_of_error hpre, if_neg fun h => by cases h]
      exact hfirst
    | ok _ =>
      rw [Action.run_bind_of_ok hpre]
      refine effect_bind_of_ok hpre hfirst ?_
      cases hcopy : (Guard.copyMetadata result ptr (keptBytes old size)).run g₁ with
      | mk r g₂ =>
        have hsecond : Effect (fun _ => True) [] g₁ g₂ :=
          effect_of_run (Guard.causes_copyMetadata _ fun _ _ => trivial) hcopy
        cases r with
        | error v =>
          rw [Action.run_bind_of_error hcopy, if_neg fun h => by cases h]
          exact hsecond
        | ok n =>
          show Effect _ [.relocate ptr result old.key] _ _
          refine effect_bind_of_ok hcopy hsecond ?_
          exact (Guard.causes_relocate _ ptr result old.key).bind
            (fun _ => Guard.causes_storeSlot _ 0 _) g₂

theorem effect_followResize (g : Guard .combined) (ptr size result : Word) (old : Metadata) :
    Effect (fun _ => True) (resizeRequests g ptr size result old) g
      ((followResize ptr size result old).run g).2 := by
  unfold resizeRequests followResize
  by_cases hz : result = 0
  · rw [if_pos hz, if_pos hz]
    exact effect_dropped g ptr size old
  · rw [if_neg hz, if_neg hz]
    by_cases hm : ptr = result
    · rw [if_pos hm, if_neg (not_not.mpr hm)]
      exact Guard.causes_storeSlot _ 0 _ g
    · rw [if_neg hm, if_pos hm]
      exact effect_moved g ptr size result old _

theorem makes_registerEnvironment (holder vector : Word)
    (strings : List (Word × Word)) : s.Makes [] (registerEnvironment holder vector strings) := by
  unfold registerEnvironment
  split
  next => exact .pure s ()
  next =>
    refine .withGuard (Guard.Causes.bind ?_ (fun e => ?_) s.guard)
    · exact Guard.causes_registerStrings fun _ _ => trivial
    · exact Guard.causes_storeMetadata e trivial

theorem makes_resize (ptr size result : Word) (old : Metadata) :
    s.Makes (resizeRequests s.guard ptr size result old) (do
      withGuard (followResize ptr size result old)
      return result) :=
  (Makes.withGuard (effect_followResize ..)).map _

theorem makes_realloc (ptr size result : Word) :
    s.Makes (if ptr = 0 then publishRequests s.guard result
      else resizeRequests s.guard ptr size result
        ((s.guard.shadow.loadSlot 1).toOption.getD default)) (realloc ptr size result) := by
  unfold realloc
  split
  next => exact makes_malloc size result
  next =>
    cases hs : s.guard.shadow.loadSlot 1 with
    | ok old =>
      have hload := run_withGuard_of_ok (Guard.run_loadSlot_of_ok hs)
      obtain ⟨hpolicy, hends, heffect⟩ := makes_resize (s := s) ptr size result old
      refine ⟨?_, ?_, ?_⟩ <;> rw [Action.run_bind_of_ok hload]
      · exact hpolicy
      · exact hends
      · exact heffect
    | error v =>
      have hslot := Guard.run_loadSlot_of_error hs
      by_cases hp : s.reporter.policy = .abort
      · have hload := run_withGuard_of_abort hp hslot
        refine ⟨?_, fun hn => absurd hp hn, fun a ha => ?_⟩
        · rw [Action.run_bind_of_error hload]
          exact s.reporter.policy_raised v
        · rw [Action.run_bind_of_error hload] at ha
          cases ha
      · have hload := run_withGuard_of_error hp hslot
        have hsame : (s.reporter.raised v).policy = s.reporter.policy := s.reporter.policy_raised v
        obtain ⟨hpolicy, hends, heffect⟩ :=
          makes_resize (s := ⟨s.guard, s.reporter.raised v⟩) ptr size result default
        refine ⟨?_, fun _ => ?_, ?_⟩ <;> rw [Action.run_bind_of_ok hload]
        · exact hpolicy.trans hsame
        · exact hends (hsame ▸ hp)
        · exact heffect

/-- A call makes its requests, if it comes to its end. -/
theorem makes_answer (c : Call) :
    s.Makes (s.requests c) (answer c) := by
  cases c with
  | init => exact .pure s Reply.void
  | storeMetadata addr e => exact .quietly (Guard.causes_storeMetadata e trivial s.guard)
  | loadMetadata addr => exact (Makes.withGuard (Guard.causes_loadMetadata _ addr s.guard)).map _
  | loadField field addr =>
    exact (Makes.withGuard (Guard.causes_loadMetadata _ addr s.guard)).map _
  | storeLane vector index e => exact .quietly (Guard.causes_storeLane e trivial s.guard)
  | loadLane vector index =>
    exact (Makes.withGuard (((Guard.Causes.ask _ _).bind fun lane =>
      Guard.causes_loadMetadata _ lane) s.guard)).map _
  | copyMetadata dest src size =>
    exact (Makes.withGuard (Guard.causes_copyMetadata src (fun _ _ => trivial) s.guard)).map _
  | preallocate addr =>
    exact .quietly (Guard.Causes.onTrie (fun _ => .preallocate addr) s.guard)
  | preallocateRange start size =>
    exact .quietly (Guard.Causes.onTrie (fun _ => .preallocateRange start size) s.guard)
  | pushFrame slots =>
    exact .quietly (((Guard.Causes.onShadow _ _).bind fun _ => .count _ _) s.guard)
  | popFrame => exact .quietly (Guard.Causes.onShadow _ _ s.guard)
  | loadSlotField field slot => exact (Makes.withGuard (Guard.Causes.onShadow _ _ s.guard)).map _
  | storeSlotField field slot value =>
    exact .quietly (((Guard.Causes.onShadow _ _).bind fun e =>
      Guard.causes_storeSlot _ _ _) s.guard)
  | storeSlot slot e => exact .quietly (Guard.causes_storeSlot _ _ _ s.guard)
  | propagateSlot source target => exact .quietly (Guard.Causes.onShadow _ _ s.guard)
  | storeNullReturn => exact .quietly (Guard.causes_storeSlot _ _ _ s.guard)
  | storeReturn e => exact .quietly (Guard.causes_storeSlot _ _ _ s.guard)
  | openProxy slot =>
    exact (Makes.withGuard (((Guard.Causes.onShadow _ _).bind fun _ =>
      .onProxies _ _) s.guard)).map _
  | copyProxy proxy => exact (Makes.withGuard (Guard.Causes.onProxies _ _ s.guard)).map _
  | closeProxy proxy => exact .quietly (Guard.Causes.onProxies _ _ s.guard)
  | nextVariadic proxy =>
    exact (Makes.withGuard (Guard.causes_nextVariadic _ proxy s.guard)).map _
  | storeProxySlot slot proxy => exact .quietly (Guard.Causes.onShadow _ _ s.guard)
  | loadProxySlot slot => exact (Makes.withGuard (Guard.Causes.onShadow _ _ s.guard)).map _
  | attachProxy addr proxy => exact .quietly (Guard.causes_attachProxy proxy trivial s.guard)
  | attachedProxy addr =>
    exact (Makes.withGuard (Guard.causes_attachedProxy _ addr s.guard)).map _
  | allocate ptr => exact (Makes.withGuard (Guard.effect_allocate _ ptr s.guard)).map _
  | deallocate ptr key lock => exact .quietly (Guard.causes_deallocate _ ptr key lock s.guard)
  | stackAllocate => exact (Makes.withGuard (Guard.causes_stackAllocate _ s.guard)).map _
  | stackDeallocate key => exact .quietly (Guard.causes_stackDeallocate _ key s.guard)
  | globalLock => exact .read s _
  | checkSpatial ptr width base bound =>
    exact .quietly (Guard.causes_checkSpatial _ ptr width base bound s.guard)
  | checkCall ptr base bound => exact .quietly (Guard.causes_checkCall _ ptr _ s.guard)
  | checkTemporal key lock => exact .quietly (Guard.causes_checkTemporal _ key lock s.guard)
  | checkCopy dest src size destEntry srcEntry =>
    exact .quietly (((Guard.causes_checkDereference _ dest size destEntry).bind fun _ =>
      Guard.causes_checkDereference _ src size srcEntry) s.guard)
  | checkFill dest size e => exact .quietly (Guard.causes_checkDereference _ dest size e s.guard)
  | shrinkBounds new old => exact .pure s _
  | introspect ptr e slot => exact .read s _
  | malloc size result => exact (makes_malloc size result).map _
  | calloc count size result => exact (makes_malloc _ result).map _
  | realloc ptr size result => exact (makes_realloc ptr size result).map _
  | free ptr => exact (makes_free ptr).map _
  | copyBytes dest src size =>
    exact ((Makes.withGuard (((Guard.causes_copyMetadata src fun _ _ => trivial).bind fun _ =>
      .onShadow _ _) s.guard)).map _).map _
  | fillBytes dest size =>
    exact ((Makes.withGuard (Guard.Causes.onShadow _ _ s.guard)).map _).map _
  | registerArguments vector strings =>
    exact (Makes.withGuard (Guard.causes_registerStrings (fun _ _ => trivial) s.guard)).map _
  | registerEnvironment holder vector strings =>
    exact (makes_registerEnvironment holder vector strings).map _

/-- The session after a call, if it goes on. -/
def step (s : Session) (c : Call) : Session := ((answer c).run s).2

def after (s : Session) (cs : List Call) : Session := cs.foldl step s

/-- The requests that a run makes to the lifetimes. -/
def requestsOf (s : Session) : List Call → List Lifetimes.Request
  | [] => []
  | c :: cs => s.requests c ++ (s.step c).requestsOf cs

/-- The process goes on after the call. -/
def GoesOn (s : Session) (c : Call) : Prop := ∃ reply, ((answer c).run s).1 = .ok reply

theorem step_makes {c : Call} (h : s.GoesOn c) :
    (s.step c).reporter.policy = s.reporter.policy ∧
      Effect (fun _ => True) (s.requests c) s.guard (s.step c).guard := by
  obtain ⟨reply, hok⟩ := h
  have hmakes := makes_answer (s := s) c
  exact ⟨hmakes.policy, hmakes.effect reply hok⟩

theorem always_goesOn (hp : s.reporter.policy ≠ .abort) (cs : List Call) :
    Runs.Always step GoesOn s cs := by
  induction cs generalizing s with
  | nil => trivial
  | cons c cs ih =>
    have hmakes := makes_answer (s := s) c
    exact ⟨hmakes.ends hp, ih (s := s.step c) (hmakes.policy ▸ hp)⟩

theorem after_makes {cs : List Call} (h : Runs.Always step GoesOn s cs) :
    (s.after cs).reporter.policy = s.reporter.policy ∧
      Effect (fun _ => True) (s.requestsOf cs) s.guard (s.after cs).guard := by
  induction cs generalizing s with
  | nil => exact ⟨rfl, .refl _ _⟩
  | cons c cs ih =>
    obtain ⟨hpolicy, hfirst⟩ := step_makes h.1
    obtain ⟨hpolicy', hrest⟩ := ih (s := s.step c) h.2
    exact ⟨hpolicy'.trans hpolicy, hfirst.trans hrest⟩

end Session

end PointerGuard
