import PointerGuard.Proofs.Guard.Parts
import PointerGuard.Proofs.Guard.Registration
import PointerGuard.Proofs.Lifetimes.StackOrder

namespace PointerGuard

variable {host : Host}

open Lifetimes (Request)

inductive ObjectKind where
  | heap
  | stack
deriving DecidableEq, Repr

/-- The number of stack objects that have locks of their own. -/
def StackLocks.live : StackLocks → Option Nat
  | perCall s => some s.top
  | shared => none

namespace ObjectKind

def allocations : ObjectKind → Counter
  | heap => .heapAllocations
  | stack => .stackAllocations

def deallocations : ObjectKind → Counter
  | heap => .heapDeallocations
  | stack => .stackDeallocations

/-- The request is for an object of this kind. -/
def asks : ObjectKind → Request → Bool
  | heap, .allocate _ => true
  | stack, .stackAllocate => true
  | _, _ => false

/-- The number of live objects, where there is a record of them. -/
def live : ObjectKind → Lifetimes → Option Nat
  | heap, l => l.tracked
  | stack, l => l.stack.live

end ObjectKind

namespace Lifetimes

variable {l l' : Lifetimes} {r : Request} {a : Except Violation (Option Lease)} {kind : ObjectKind}
  {n : Nat}

/-- A counter counts a request with this answer: every allocation that is asked for, and every
release that is granted. -/
def Request.counts (a : Except Violation (Option Lease)) : Request → Counter → Bool
  | .allocate _, .heapAllocations => true
  | .deallocate _ _ _, .heapDeallocations => a.isOk
  | .stackAllocate, .stackAllocations => true
  | .stackDeallocate _, .stackDeallocations => a.isOk
  | _, _ => false

/-- The requests of a run that a counter counts. -/
def counted (c : Counter) (l : Lifetimes) (rs : List Request) : Nat :=
  Runs.tally step (fun l r => r.counts (l.serve r).1 c) l rs

/-- The allocations of a run that are refused. -/
def refusals (kind : ObjectKind) (l : Lifetimes) (rs : List Request) : Nat :=
  Runs.tally step (fun l r => kind.asks r && !(l.serve r).1.isOk) l rs

theorem counted_deallocate (c : Counter) (l : Lifetimes) (ptr key lock : Word) :
    l.counted c [.deallocate ptr key lock] =
      if c = .heapDeallocations ∧ (l.deallocate ptr key lock).isOk = true then 1 else 0 := by
  rw [counted, Runs.tally, serve]
  cases l.deallocate ptr key lock <;> cases c <;> rfl

theorem counted_stackDeallocate (c : Counter) (l : Lifetimes) (key : Word) :
    l.counted c [.stackDeallocate key] =
      if c = .stackDeallocations ∧ (l.stackDeallocate key).isOk = true then 1 else 0 := by
  rw [counted, Runs.tally, serve]
  cases l.stackDeallocate key <;> cases c <;> rfl

/-- What a request with this answer adds to the allocations of a kind is what it adds to the
releases, to the live objects, which it takes from `n` to `n'`, and to the refusals. -/
def Balanced (kind : ObjectKind) (r : Request) (a : Except Violation (Option Lease)) (n n' : Nat) :
    Prop :=
  (if r.counts a kind.allocations then 1 else 0) + n
    = (if r.counts a kind.deallocations then 1 else 0) + n' +
      if kind.asks r && !a.isOk then 1 else 0

theorem balanced_refused (kind : ObjectKind) (r : Request) (v : Violation) (n : Nat) :
    Balanced kind r (.error v) n n := by
  have hasked : r.counts (.error v) kind.allocations = kind.asks r := by
    cases kind <;> cases r <;> rfl
  have hreleased : r.counts (.error v) kind.deallocations = false := by
    cases kind <;> cases r <;> rfl
  rw [Balanced, hasked, hreleased, if_neg Bool.false_ne_true]
  show _ = 0 + n + if kind.asks r && true then 1 else 0
  rw [Bool.and_true]
  omega

theorem Change.heap_balanced (hm : ∀ m, l.freeMap = some m → m.Counted) (hl : l.tracked = some n)
    (h : Change l r a l') : ∃ n', l'.tracked = some n' ∧ Balanced .heap r a n n' := by
  obtain ⟨m, hmap, rfl⟩ := Option.map_eq_some_iff.mp hl
  have hcounted := hm m hmap
  cases h with
  | refused r v => exact ⟨_, hl, balanced_refused ..⟩
  | granted _ _ hinsert =>
    rw [hmap] at hinsert
    cases hinsert with
    | @some _ m' hi =>
      obtain ⟨_, hlive⟩ := hcounted.insert hi
      refine ⟨m'.live, rfl, ?_⟩
      show 1 + m.live = 0 + m'.live + 0
      omega
  | turnedAway => exact ⟨_, hl, balanced_refused ..⟩
  | released _ _ hremove =>
    rw [hmap] at hremove
    cases hremove with
    | @some _ m' hr =>
      obtain ⟨_, hlive⟩ := hcounted.remove hr
      refine ⟨m'.live, rfl, ?_⟩
      show 0 + m.live = 1 + m'.live + 0
      omega
  | moved hmoved =>
    rw [hmap] at hmoved
    cases hmoved with
    | @some _ m' hr =>
      obtain ⟨removed, hremove, hinsert⟩ := hr
      obtain ⟨hcounted', hless⟩ := hcounted.remove hremove
      obtain ⟨_, hmore⟩ := hcounted'.insert hinsert
      refine ⟨m'.live, rfl, ?_⟩
      show 0 + m.live = 0 + m'.live + 0
      omega
  | @restored _ _ _ _ _ m' _ hmap' hremove _ hinsert =>
    cases hmap.symm.trans hmap'
    obtain ⟨hcounted', hless⟩ := hcounted.remove hremove
    obtain ⟨_, hmore⟩ := hcounted'.insert hinsert
    refine ⟨m'.live, rfl, ?_⟩
    show 0 + m.live = 0 + m'.live + 0
    omega
  | shared => exact ⟨_, hl, rfl⟩
  | pushed => exact ⟨_, hl, rfl⟩
  | ignored => exact ⟨_, hl, rfl⟩
  | popped => exact ⟨_, hl, rfl⟩

theorem Change.stack_balanced {s : LockStack} (hs : l.stack = .perCall s) (h : Change l r a l') :
    ∃ s', l'.stack = .perCall s' ∧ Balanced .stack r a s.top s'.top := by
  cases h with
  | refused r v => exact ⟨s, hs, balanced_refused ..⟩
  | granted => exact ⟨s, hs, rfl⟩
  | turnedAway => exact ⟨s, hs, rfl⟩
  | released => exact ⟨s, hs, rfl⟩
  | moved => exact ⟨s, hs, rfl⟩
  | restored => exact ⟨s, hs, rfl⟩
  | shared hshared => cases hs.symm.trans hshared
  | ignored hshared => cases hs.symm.trans hshared
  | @pushed stack hstack _ =>
    cases hs.symm.trans hstack
    refine ⟨_, rfl, ?_⟩
    show 1 + s.top = 0 + (s.top + 1) + 0
    omega
  | @popped key stack hstack htop _ =>
    cases hs.symm.trans hstack
    refine ⟨_, rfl, ?_⟩
    show 0 + s.top = 1 + (s.top - 1) + 0
    omega

theorem Change.balanced (hm : ∀ m, l.freeMap = some m → m.Counted) (hl : kind.live l = some n)
    (h : Change l r a l') : ∃ n', kind.live l' = some n' ∧ Balanced kind r a n n' := by
  cases kind with
  | heap => exact h.heap_balanced hm hl
  | stack =>
    rw [ObjectKind.live] at hl
    cases hs : l.stack with
    | shared =>
      rw [hs] at hl
      cases hl
    | perCall s =>
      rw [hs] at hl
      cases hl
      obtain ⟨s', hs', hbalanced⟩ := h.stack_balanced hs
      exact ⟨s'.top, by rw [ObjectKind.live, hs']; rfl, hbalanced⟩

/-- Over a run, what was counted as allocated and what was live before comes to what was counted as
released, what is live after, and what was refused. -/
theorem balanced_after (hwell : l.WellFormed) (hl : kind.live l = some n) (rs : List Request) :
    ∃ n', kind.live (l.after rs) = some n' ∧
      l.counted kind.allocations rs + n
        = l.counted kind.deallocations rs + n' + l.refusals kind rs := by
  induction rs generalizing l n with
  | nil => exact ⟨n, hl, by simp [counted, refusals, Runs.tally]⟩
  | cons r rs ih =>
    obtain ⟨n₁, hl₁, hfirst⟩ :=
      (change_serve l r).balanced (fun m hm => (hwell.map m hm).counted) hl
    obtain ⟨n', hl', hrest⟩ := ih (hwell.step r) hl₁
    refine ⟨n', hl', ?_⟩
    rw [Balanced] at hfirst
    rw [counted, counted, refusals] at hrest ⊢
    simp only [Runs.tally]
    omega

theorem counted_le_length (c : Counter) (l : Lifetimes) (rs : List Request) :
    l.counted c rs ≤ rs.length :=
  Runs.tally_le_length

theorem counted_append (c : Counter) (l : Lifetimes) (rs qs : List Request) :
    l.counted c (rs ++ qs) = l.counted c rs + (l.after rs).counted c qs :=
  Runs.tally_append

theorem live_create {lockEntries stackEntries freeMapEntries : Nat}
    (h : Lifetimes.create host lockEntries .perCall stackEntries (some freeMapEntries) = .ok l)
    (kind : ObjectKind) : kind.live l = some 0 := by
  obtain ⟨_, _, _, hpolicy, hstack, hmap⟩ := Lifetimes.create_eq_ok h
  cases kind with
  | heap =>
    rw [ObjectKind.live, tracked]
    generalize l.freeMap = o at hmap ⊢
    cases hmap with
    | some hcreate =>
      obtain ⟨rfl, _⟩ := FreeMap.create_eq_ok hcreate
      rfl
  | stack =>
    rw [ObjectKind.live]
    cases hs : l.stack with
    | shared =>
      rw [hs] at hpolicy
      cases hpolicy
    | perCall s =>
      rw [(LockStack.create_eq_ok (hstack s hs)).1]
      rfl

/-- The account of stack leases has one for each live stack object. -/
theorem StackAccounted.length_eq {live : List Lease} (h : l.StackAccounted live)
    (hl : ObjectKind.stack.live l = some n) : live.length = n := by
  rw [ObjectKind.live] at hl
  rw [StackAccounted] at h
  cases hs : l.stack with
  | shared =>
    rw [hs] at hl
    cases hl
  | perCall s =>
    rw [hs] at h hl
    cases hl
    rw [h, LockStack.length_leases]

end Lifetimes

/-- The operation is counted by a counter of objects. -/
def Operation.ofObjects : Operation → Bool
  | .allocate _ => true
  | .allocateObject _ _ => true
  | .deallocate _ _ _ => true
  | .stackAllocate => true
  | .stackDeallocate _ => true
  | _ => false

namespace Guard

variable {mode : Mode} {α : Type} {g : Guard mode} {l : Lifetimes} {c : Counter} {op : Operation}

def counter (c : Counter) (g : Guard mode) : Word := g.metrics.get c

theorem counter_bump (g : Guard mode) (c d : Counter) :
    counter c { g with metrics := g.metrics.bump d }
      = g.counter c + .ofNat (if c = d then 1 else 0) := by
  show (g.metrics.bump d).get c = g.metrics.get c + _
  rw [Metrics.get_bump]
  split
  next => rfl
  next => exact (UInt64.add_zero _).symm

theorem overlooks_objects (hc : c.ofObjects = true) : Overlooks (counter c : Guard mode → Word) := by
  refine ⟨fun _ _ => rfl, fun g d hd => ?_⟩
  have hne : c ≠ d := by
    rintro rfl
    cases hc.symm.trans hd
  rw [counter_bump, if_neg hne]
  exact UInt64.add_zero _

theorem keeps_perform (hc : c.ofObjects = true) (hop : op.ofObjects = false) :
    Keeps (counter c) (perform op : Guarded mode Answer) := by
  have hf : Overlooks (counter c : Guard mode → Word) := overlooks_objects hc
  have hshadow {α : Type} (act : Action Violation (ShadowStack mode) α) :
      Keeps (counter c) (onShadow act) := fun _ => rfl
  have hproxies {α : Type} (act : Action Violation Proxies α) :
      Keeps (counter c) (onProxies act : Guarded mode α) := fun _ => rfl
  cases op with
  | storeMetadata addr e => exact (hf.storeMetadata addr e).quiet
  | loadMetadata addr => exact (hf.loadMetadata addr).bind fun _ => .pure _
  | copyMetadata dest src len => exact (hf.copyMetadata dest src len).bind fun _ => .pure _
  | preallocate addr => exact (hf.onTrie _).quiet
  | preallocateRange start len => exact (hf.onTrie _).quiet
  | storeLane vector index e => exact (hf.storeLane vector index e).quiet
  | loadLane vector index => exact (hf.loadLane vector index).bind fun _ => .pure _
  | registerStrings vector strings =>
    exact (hf.registerStrings vector strings).bind fun _ => .pure _
  | attachProxy addr proxy => exact (hf.count_bind rfl (hf.onTrie _)).quiet
  | attachedProxy addr => exact (hf.count_bind rfl (hf.onTrie _)).bind fun _ => .pure _
  | pushFrame slots => exact ((hshadow _).bind fun _ => hf.count rfl).quiet
  | popFrame => exact (hshadow _).quiet
  | loadSlot slot => exact (hshadow _).bind fun _ => .pure _
  | storeSlot slot e => exact (hshadow _).quiet
  | propagateSlot source target => exact (hshadow _).quiet
  | storeReturn e => exact Keeps.quiet (hshadow _)
  | storeNullReturn => exact Keeps.quiet (hshadow _)
  | openProxy slot => exact ((hshadow _).bind fun _ => hproxies _).bind fun _ => .pure _
  | nextVariadic proxy =>
    exact ((hproxies _).bind fun _ => (hshadow _).bind fun _ => (hproxies _).bind fun _ =>
      .pure _).bind fun _ => .pure _
  | copyProxy proxy => exact (hproxies _).bind fun _ => .pure _
  | closeProxy proxy => exact (hproxies _).quiet
  | storeProxySlot slot proxy => exact (hshadow _).quiet
  | loadProxySlot slot => exact (hshadow _).bind fun _ => .pure _
  | allocate ptr => cases hop
  | allocateObject ptr size => cases hop
  | deallocate ptr key lock => cases hop
  | relocate old new key =>
    exact (Keeps.onLifetimes (fun _ _ => rfl) () _).quiet
  | stackAllocate => cases hop
  | stackDeallocate key => cases hop
  | checkSpatial ptr width base bound => exact (hf.checkSpatial ptr width base bound).quiet
  | checkTemporal key lock => exact (hf.checkTemporal key lock).quiet
  | checkDereference ptr width e => exact (hf.checkDereference ptr width e).quiet
  | checkDereferenceVia witness ptr width =>
    exact ((hf.loadMetadata witness).bind (hf.checkDereference ptr width)).quiet
  | checkCall ptr e => exact (hf.checkCall ptr e).quiet
  | checkCopy dest src len destEntry srcEntry =>
    exact ((hf.checkDereference dest len destEntry).bind fun _ =>
      hf.checkDereference src len srcEntry).quiet
  | checkFill dest len e => exact (hf.checkDereference dest len e).quiet
  | introspect ptr e slot => exact .read _
  | globalLock => exact .read _
  | wideMetadata => exact .read _
  | stackLockPolicy => exact .read _
  | isInstalled addr => exact .read _
  | snapshot => exact .read _
  | describe => exact .read _

theorem counted_of_not_ofObjects (l : Lifetimes) (hop : op.ofObjects = false) :
    l.counted c (g.requests op) = 0 := by
  cases op with
  | allocate ptr => cases hop
  | allocateObject ptr size => cases hop
  | deallocate ptr key lock => cases hop
  | relocate old new key => cases c <;> rfl
  | stackAllocate => cases hop
  | stackDeallocate key => cases hop
  | _ => rfl

/-- An allocation is counted before the lifetimes are asked for it. -/
theorem counter_of_request (d : Counter) (absent : α) (act : Action Violation Lifetimes α)
    (g : Guard mode) : counter c ((count d >>= fun _ => onLifetimes absent act).run g).2
      = g.counter c + .ofNat (if c = d then 1 else 0) := by
  have hasked : Keeps (counter c) (onLifetimes absent act : Guarded mode α) :=
    .onLifetimes (fun _ _ => rfl) absent act
  rw [Action.run_bind_of_ok (run_count d g), hasked, counter_bump]

/-- A release is counted after the lifetimes have granted it. -/
theorem counter_of_release (hl : g.lifetimes = some l) (f : Lifetimes → Except Violation Lifetimes)
    (d : Counter) : counter c ((onLifetimes () (.update f) >>= fun _ => count d).run g).2
      = g.counter c + .ofNat (if c = d ∧ (f l).isOk = true then 1 else 0) := by
  have hrun := run_onLifetimes hl () (.update f)
  cases hr : f l with
  | ok l' =>
    rw [Action.run_update_of_ok hr] at hrun
    rw [Action.run_bind_of_ok hrun, run_count, counter_bump]
    by_cases hd : c = d
    · rw [if_pos hd, if_pos ⟨hd, rfl⟩]
      rfl
    · rw [if_neg hd, if_neg fun h => hd h.1]
      rfl
  | error v =>
    rw [Action.run_update_of_error hr] at hrun
    rw [Action.run_bind_of_error hrun, if_neg fun h => by cases h.2]
    exact (UInt64.add_zero _).symm

theorem counter_of_allocate (hl : g.lifetimes = some l) (ptr : Word) :
    counter c ((allocate ptr).run g).2
      = g.counter c + .ofNat (l.counted c (g.requests (.allocate ptr))) := by
  rw [requests_allocate]
  cases ht : (g.trie.preallocate ptr).1 with
  | error v =>
    rw [run_allocate_of_error ht]
    exact (UInt64.add_zero _).symm
  | ok _ =>
    rw [run_allocate_of_ok hl ht]
    refine (counter_bump g c .heapAllocations).trans ?_
    cases c <;> rfl

theorem counter_step (hl : g.lifetimes = some l) (hc : c.ofObjects = true) (op : Operation) :
    (g.step op).counter c = g.counter c + .ofNat (l.counted c (g.requests op)) := by
  cases hop : op.ofObjects with
  | false =>
    rw [counted_of_not_ofObjects l hop, step, keeps_perform hc hop]
    exact (UInt64.add_zero _).symm
  | true =>
    cases op with
    | allocate ptr =>
      have hrun : (g.step (.allocate ptr)).counter c = counter c ((allocate ptr).run g).2 :=
        Keeps.run_bind (fun _ => .pure _) g
      rw [hrun, counter_of_allocate hl]
    | allocateObject ptr size =>
      have hrun : (g.step (.allocateObject ptr size)).counter c
          = counter c ((allocate ptr).run g).2 :=
        (Keeps.run_bind (fun _ => .pure _) g).trans
          (Keeps.run_bind (fun _ => (Keeps.orFail _ _).bind fun _ => .pure _) g)
      rw [hrun, counter_of_allocate hl]
      rfl
    | deallocate ptr key lock =>
      have hrun : (g.step (.deallocate ptr key lock)).counter c
          = counter c ((deallocate ptr key lock).run g).2 := Keeps.run_bind (fun _ => .pure _) g
      rw [hrun, deallocate, counter_of_release hl, ← Lifetimes.counted_deallocate]
      rfl
    | stackAllocate =>
      have hrun : (g.step .stackAllocate).counter c = counter c (stackAllocate.run g).2 :=
        Keeps.run_bind (fun _ => .pure _) g
      have hcount : counter c (stackAllocate.run g).2
          = g.counter c + .ofNat (if c = .stackAllocations then 1 else 0) :=
        counter_of_request .stackAllocations default _ g
      rw [hrun, hcount]
      cases c <;> rfl
    | stackDeallocate key =>
      have hrun : (g.step (.stackDeallocate key)).counter c
          = counter c ((stackDeallocate key).run g).2 := Keeps.run_bind (fun _ => .pure _) g
      rw [hrun, stackDeallocate, counter_of_release hl, ← Lifetimes.counted_stackDeallocate]
      rfl
    | _ => cases hop

theorem counter_after (hl : g.lifetimes = some l) (hc : c.ofObjects = true) (ops : List Operation) :
    (g.after ops).counter c = g.counter c + .ofNat (l.counted c (g.requestsOf ops)) := by
  induction ops generalizing g l with
  | nil => exact (UInt64.add_zero _).symm
  | cons op ops ih =>
    have hfirst := counter_step hl hc op
    have hrest := ih (lifetimes_step hl op)
    rw [requestsOf, Lifetimes.counted_append, UInt64.ofNat_add, ← UInt64.add_assoc, ← hfirst]
    exact hrest

/-- The counters of a kind count so many allocations and releases. -/
theorem counters_balance {config : Config} (hc : Guard.create host config = .ok g)
    (hmode : mode.tracksLifetime = true) (hl : g.lifetimes = some l) (kind : ObjectKind)
    (hlive : kind.live l = some 0) (ops : List Operation) :
    ∃ n asked released, kind.live (l.after (g.requestsOf ops)) = some n ∧
      (g.after ops).counter kind.allocations = .ofNat asked ∧
      (g.after ops).counter kind.deallocations = .ofNat released ∧
      asked = released + (n + l.refusals kind (g.requestsOf ops)) ∧ asked ≤ ops.length := by
  obtain ⟨l', hl', hwell, _⟩ := exists_lifetimes hc hmode []
  cases hl.symm.trans hl'
  have hcount {c : Counter} (hobjects : c.ofObjects = true) :
      (g.after ops).counter c = .ofNat (l.counted c (g.requestsOf ops)) := by
    have hzero : g.counter c = 0 := by
      rw [counter, metrics_create hc]
      cases c <;> rfl
    rw [counter_after hl hobjects, hzero, UInt64.zero_add]
  have hasked : kind.allocations.ofObjects = true := by cases kind <;> rfl
  have hreleased : kind.deallocations.ofObjects = true := by cases kind <;> rfl
  obtain ⟨n, hn, hcounts⟩ := Lifetimes.balanced_after hwell hlive (g.requestsOf ops)
  refine ⟨n, _, _, hn, hcount hasked, hcount hreleased, by omega, ?_⟩
  exact (l.counted_le_length _ _).trans (g.length_requestsOf_le ops)

/-- With a free map and per-call stack locks, the counters balance after any run, but for the
allocations that the lifetimes refused after they had been counted. -/
theorem object_counters_balance_but_for_refusals {config : Config}
    (hc : Guard.create host config = .ok g) (hmode : mode.tracksLifetime = true)
    (hmap : config.freeMap = true) (hpolicy : config.stackLockPolicy = .perCall)
    (ops : List Operation) :
    ∃ l n, g.lifetimes = some l ∧ (g.after ops).tracked = some n ∧
      let rs := g.requestsOf ops
      let metrics := (g.after ops).metrics
      let locked := (l.stackLeases [] rs).length
      metrics.heapAllocations - metrics.heapDeallocations = .ofNat (n + l.refusals .heap rs) ∧
      metrics.stackAllocations - metrics.stackDeallocations
        = .ofNat (locked + l.refusals .stack rs) ∧
      (ops.length < 2 ^ 64 →
        metrics.heapAllocations.toNat
          = metrics.heapDeallocations.toNat + n + l.refusals .heap rs ∧
        metrics.stackAllocations.toNat
          = metrics.stackDeallocations.toNat + locked + l.refusals .stack rs) := by
  obtain ⟨_, _, hlifetimes⟩ := Guard.create_eq_ok hc
  obtain ⟨l, hl, hcreate⟩ := hlifetimes hmode
  have hacc := Lifetimes.stackAccounted_after (.create hcreate) (g.requestsOf ops)
  rw [hmap, hpolicy, if_pos rfl] at hcreate
  have hlive := Lifetimes.live_create hcreate
  obtain ⟨n, asked, released, hn, hasked, hreleased, hheap, hshort⟩ :=
    counters_balance hc hmode hl .heap (hlive .heap) ops
  obtain ⟨m, asked', released', hm, hasked', hreleased', hstack, hshort'⟩ :=
    counters_balance hc hmode hl .stack (hlive .stack) ops
  have htracked : (g.after ops).tracked = some n := by
    rw [tracked, lifetimes_after hl]
    exact hn
  rw [← hacc.length_eq hm] at hstack
  have hdifference {a b k : Nat} {x y : Word} (hx : x = .ofNat a) (hy : y = .ofNat b)
      (hsum : a = b + k) : x - y = .ofNat k := by
    rw [hx, hy, hsum, UInt64.ofNat_add, UInt64.add_comm, UInt64.add_sub_cancel]
  refine ⟨l, n, hl, htracked, hdifference hasked hreleased hheap,
    hdifference hasked' hreleased' hstack, fun hops => ?_⟩
  have hword {a : Nat} {x : Word} (hx : x = .ofNat a) (ha : a < 2 ^ 64) : x.toNat = a := by
    rw [hx, toNat_ofNat_of_lt ha]
  have hissued := hword hasked (by omega)
  have hreturned := hword hreleased (by omega)
  have hissued' := hword hasked' (by omega)
  have hreturned' := hword hreleased' (by omega)
  simp only [counter, Metrics.get, ObjectKind.allocations, ObjectKind.deallocations]
    at hissued hreturned hissued' hreturned'
  exact ⟨by omega, by omega⟩

/-- One heap object is refused for want of a lock cell, another is released, and one stack object is
refused. -/
theorem object_counters_balance_but_for_refusals_of_full_arenas :
    ∃ g : Guard .combined,
      Guard.create .standard { Config.compact with lockEntries := 1, stackLockEntries := 1 } = .ok g ∧
      Mode.combined.tracksLifetime = true ∧
      let metrics := (g.after [.allocate 0x1000, .allocate 0x2000,
        .deallocate 0x1000 2 heapLocksAddr, .stackAllocate, .stackAllocate]).metrics
      metrics.heapAllocations - metrics.heapDeallocations = .ofNat (0 + 1) ∧
      metrics.stackAllocations - metrics.stackDeallocations = .ofNat (1 + 1) := by
  have hc : (Guard.create .standard { Config.compact with lockEntries := 1, stackLockEntries := 1 } :
    Except _ (Guard .combined)) = .ok _ := rfl
  obtain ⟨l, n, hl, hn, hheap, hstack, _⟩ := object_counters_balance_but_for_refusals hc rfl rfl rfl
    [.allocate 0x1000, .allocate 0x2000, .deallocate 0x1000 2 heapLocksAddr, .stackAllocate,
      .stackAllocate]
  cases hl
  cases hn
  exact ⟨_, hc, rfl, hheap, hstack⟩

/-- A heap object and a stack object that get no lock cell are counted as allocated. -/
theorem refused_allocations_are_counted :
    ∃ g : Guard .combined,
      Guard.create .standard { Config.compact with lockEntries := 1, stackLockEntries := 1 } = .ok g ∧
      let after := g.after [.allocate 0x1000, .allocate 0x2000, .stackAllocate, .stackAllocate]
      after.tracked = some 1 ∧
      after.metrics.heapAllocations - after.metrics.heapDeallocations = 2 ∧
      after.lifetimes.bind ObjectKind.stack.live = some 1 ∧
      after.metrics.stackAllocations - after.metrics.stackDeallocations = 2 :=
  ⟨_, rfl, rfl, rfl, rfl, rfl⟩

end Guard

end PointerGuard
