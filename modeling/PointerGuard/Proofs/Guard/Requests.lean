import PointerGuard.Proofs.Guard.Effects
import PointerGuard.Proofs.Lifetimes.Liveness

namespace PointerGuard

variable {host : Host}

theorem Guard.reserve_of_create {mode : Mode} {config : Config} {g : Guard mode}
    (h : Guard.create host config = .ok g) :
    config.validate = .ok () ∧ Guard.reserve host config = .ok g := by
  unfold Guard.create at h
  split at h
  next => simp at h
  next hv =>
    split at h
    next => simp at h
    next hr =>
      cases Except.ok.inj h
      exact ⟨hv, hr⟩

theorem Guard.reserve_eq_ok {mode : Mode} {config : Config} {g : Guard mode}
    (h : Guard.reserve host config = .ok g) :
    Trie.create host config.primaryEntries config.installPolicy = .ok g.trie ∧
      ShadowStack.create host config.shadowStackWords = .ok g.shadow ∧
      g.proxies = { capacity := config.vaArgProxies } ∧
      (mode.tracksLifetime = true → ∃ l, g.lifetimes = some l ∧
        Lifetimes.create host config.lockEntries config.stackLockPolicy config.stackLockEntries
          (if config.freeMap then some config.freeMapEntries else none) = .ok l) := by
  unfold Guard.reserve at h
  obtain ⟨trie, ht, h⟩ := bind_eq_ok h
  obtain ⟨shadow, hs, h⟩ := bind_eq_ok h
  by_cases hmode : mode.tracksLifetime = true
  · simp only [hmode, ↓reduceIte] at h
    obtain ⟨lifetimes, hl, h⟩ := bind_eq_ok h
    obtain ⟨l, hc, rfl⟩ := map_eq_ok hl
    cases Except.ok.inj h
    exact ⟨ht, hs, rfl, fun _ => ⟨l, rfl, hc⟩⟩
  · simp only [hmode] at h
    cases Except.ok.inj h
    exact ⟨ht, hs, rfl, fun h => absurd h hmode⟩

theorem Guard.eq_of_create {mode : Mode} {config : Config} {g : Guard mode}
    (h : Guard.create host config = .ok g) : ∃ trie shadow lifetimes,
    g = { config, trie, shadow, proxies := { capacity := config.vaArgProxies }, lifetimes } := by
  obtain ⟨_, hr⟩ := Guard.reserve_of_create h
  unfold Guard.reserve at hr
  obtain ⟨trie, _, hr⟩ := bind_eq_ok hr
  obtain ⟨shadow, _, hr⟩ := bind_eq_ok hr
  by_cases hmode : mode.tracksLifetime = true
  · simp only [hmode, ↓reduceIte] at hr
    obtain ⟨lifetimes, _, hr⟩ := bind_eq_ok hr
    exact ⟨trie, shadow, lifetimes, (Except.ok.inj hr).symm⟩
  · simp only [hmode] at hr
    exact ⟨trie, shadow, none, (Except.ok.inj hr).symm⟩

theorem Guard.config_create {mode : Mode} {config : Config} {g : Guard mode}
    (h : Guard.create host config = .ok g) : g.config = config := by
  obtain ⟨_, _, _, rfl⟩ := Guard.eq_of_create h
  rfl

theorem Guard.metrics_create {mode : Mode} {config : Config} {g : Guard mode}
    (h : Guard.create host config = .ok g) : g.metrics = {} := by
  obtain ⟨_, _, _, rfl⟩ := Guard.eq_of_create h
  rfl

theorem Guard.create_eq_ok {mode : Mode} {config : Config} {g : Guard mode}
    (h : Guard.create host config = .ok g) :
    config.validate = .ok () ∧
      Trie.create host config.primaryEntries config.installPolicy = .ok g.trie ∧
      (mode.tracksLifetime = true → ∃ l, g.lifetimes = some l ∧
        Lifetimes.create host config.lockEntries config.stackLockPolicy config.stackLockEntries
          (if config.freeMap then some config.freeMapEntries else none) = .ok l) := by
  obtain ⟨hv, hr⟩ := Guard.reserve_of_create h
  obtain ⟨ht, _, _, hl⟩ := Guard.reserve_eq_ok hr
  exact ⟨hv, ht, hl⟩

namespace Guard

variable {mode : Mode} {g : Guard mode} {l : Lifetimes}

open Lifetimes (Request)

def step (g : Guard mode) (op : Operation) : Guard mode := ((perform op).run g).2

/-- The requests that a run makes to the lifetimes. -/
def requestsOf (g : Guard mode) : List Operation → List Request
  | [] => []
  | op :: ops => g.requests op ++ (g.step op).requestsOf ops

/-- The operations of a run that take a key from the counter. -/
def keysDrawn (g : Guard mode) (ops : List Operation) : Nat :=
  Runs.tally step
    (fun g op => (g.step op).lifetimes.map (·.nextKey) != g.lifetimes.map (·.nextKey)) g ops

theorem lifetimes_step (hl : g.lifetimes = some l) (op : Operation) :
    (g.step op).lifetimes = some (l.after (g.requests op)) := by
  rw [step, (effect_perform op g).lifetimes, hl]
  rfl

theorem lifetimes_create {config : Config} {l : Lifetimes} (h : Guard.create host config = .ok g)
    (hl : g.lifetimes = some l) :
    Lifetimes.create host config.lockEntries config.stackLockPolicy config.stackLockEntries
      (if config.freeMap then some config.freeMapEntries else none) = .ok l := by
  obtain ⟨_, hr⟩ := reserve_of_create h
  obtain ⟨_, _, _, htracked⟩ := reserve_eq_ok hr
  by_cases hmode : mode.tracksLifetime = true
  · obtain ⟨l', hl', hcl⟩ := htracked hmode
    cases hl.symm.trans hl'
    exact hcl
  · unfold reserve at hr
    obtain ⟨_, _, hr⟩ := bind_eq_ok hr
    obtain ⟨_, _, hr⟩ := bind_eq_ok hr
    simp only [hmode] at hr
    cases Except.ok.inj hr
    cases hl

theorem lifetimes_after (hl : g.lifetimes = some l) (ops : List Operation) :
    (g.after ops).lifetimes = some (l.after (g.requestsOf ops)) := by
  induction ops generalizing g l with
  | nil => exact hl
  | cons op ops ih =>
    rw [requestsOf, Lifetimes.after_append]
    exact ih (lifetimes_step hl op)

theorem requestsOf_append (xs ys : List Operation) :
    g.requestsOf (xs ++ ys) = g.requestsOf xs ++ (g.after xs).requestsOf ys := by
  induction xs generalizing g with
  | nil => rfl
  | cons x xs ih => rw [List.cons_append, requestsOf, ih, requestsOf, List.append_assoc]; rfl

theorem requests_short (g : Guard mode) (op : Operation) :
    g.requests op = [] ∨ ∃ r, g.requests op = [r] := by
  have hallocate (ptr : Word) : g.requests (.allocate ptr) = [] ∨
      ∃ r, g.requests (.allocate ptr) = [r] := by
    rw [requests_allocate]
    split
    next => exact Or.inr ⟨_, rfl⟩
    next => exact Or.inl rfl
  cases op with
  | allocate ptr => exact hallocate ptr
  | allocateObject ptr size => exact hallocate ptr
  | deallocate ptr key lock => exact Or.inr ⟨_, rfl⟩
  | relocate old new key => exact Or.inr ⟨_, rfl⟩
  | stackAllocate => exact Or.inr ⟨_, rfl⟩
  | stackDeallocate key => exact Or.inr ⟨_, rfl⟩
  | _ => exact Or.inl rfl

theorem length_requestsOf_le (g : Guard mode) (ops : List Operation) :
    (g.requestsOf ops).length ≤ ops.length := by
  induction ops generalizing g with
  | nil => exact Nat.le_refl 0
  | cons op ops ih =>
    have hrest := ih (g.step op)
    rw [requestsOf, List.length_append, List.length_cons]
    rcases g.requests_short op with h | ⟨r, h⟩ <;> rw [h]
    · rw [List.length_nil]
      omega
    · rw [List.length_singleton]
      omega

theorem mem_requests_deallocate {op : Operation} {ptr key lock : Word} :
    .deallocate ptr key lock ∈ g.requests op ↔ op = .deallocate ptr key lock := by
  have hallocate (p : Word) : .deallocate ptr key lock ∉ g.requests (.allocate p) := by
    rw [requests_allocate]
    split <;> simp
  constructor
  · intro h
    cases op with
    | allocate p => exact absurd h (hallocate p)
    | allocateObject p size => exact absurd h (hallocate p)
    | deallocate p k lk =>
      cases List.mem_singleton.mp h
      rfl
    | relocate old new k => cases List.mem_singleton.mp h
    | stackAllocate => cases List.mem_singleton.mp h
    | stackDeallocate k => cases List.mem_singleton.mp h
    | _ => cases h
  · rintro rfl
    exact List.mem_singleton_self _

theorem keysDrawn_eq (hl : g.lifetimes = some l) (ops : List Operation) :
    g.keysDrawn ops = l.keysDrawn (g.requestsOf ops) := by
  induction ops generalizing g l with
  | nil => rfl
  | cons op ops ih =>
    have hs := lifetimes_step hl op
    have hone : (if (g.step op).lifetimes.map (·.nextKey) != g.lifetimes.map (·.nextKey) then 1
        else 0) = l.keysDrawn (g.requests op) := by
      rw [hs, hl]
      rcases g.requests_short op with hr | ⟨r, hr⟩ <;> rw [hr]
      · simp [Lifetimes.after, Lifetimes.keysDrawn, Runs.tally]
      · rfl
    rw [requestsOf, Lifetimes.keysDrawn_append, ← hone, ← ih hs]
    rfl

/-- The operation takes this lease back. -/
def Releases (key lock : Word) (g : Guard mode) (op : Operation) : Prop :=
  ∃ ptr, op = .deallocate ptr key lock ∧ ((perform op).run g).1 = .ok .done

/-- A release that is refused keeps the guard. -/
theorem run_deallocate_of_error (hl : g.lifetimes = some l) {ptr key lock : Word} {v : Violation}
    (h : l.deallocate ptr key lock = .error v) :
    (deallocate ptr key lock).run g = (.error v, g) := by
  have hkeep : { g with lifetimes := some l } = g := by rw [← hl]
  have hrun := run_onLifetimes hl () (.update (·.deallocate ptr key lock))
  rw [Action.run_update_of_error h, hkeep] at hrun
  exact Action.run_bind_of_error hrun

theorem perform_deallocate_of_error (hl : g.lifetimes = some l) {ptr key lock : Word}
    {v : Violation} (h : l.deallocate ptr key lock = .error v) :
    (perform (.deallocate ptr key lock)).run g = (.error v, g) :=
  Action.run_bind_of_error (run_deallocate_of_error hl h)

theorem perform_deallocate_eq_ok_iff (hl : g.lifetimes = some l) {ptr key lock : Word} :
    ((perform (.deallocate ptr key lock)).run g).1 = .ok .done ↔
      (l.serve (.deallocate ptr key lock)).1 = .ok none := by
  rw [Lifetimes.serve]
  cases h : l.deallocate ptr key lock with
  | ok l' =>
    have hrun := run_onLifetimes hl () (.update (·.deallocate ptr key lock))
    rw [Action.run_update_of_ok h] at hrun
    have hfree : (deallocate ptr key lock).run g = _ := Action.run_bind_of_ok hrun
    have hperform : (perform (.deallocate ptr key lock)).run g = _ := Action.run_bind_of_ok hfree
    rw [hperform]
    exact iff_of_true rfl rfl
  | error v =>
    rw [perform_deallocate_of_error hl h]
    simp

theorem ever_releases_iff (hl : g.lifetimes = some l) {key lock : Word} (ops : List Operation) :
    Runs.Ever step (Releases key lock) g ops ↔
      Runs.Ever Lifetimes.step (Lifetimes.Releases key lock) l (g.requestsOf ops) := by
  induction ops generalizing g l with
  | nil => exact .rfl
  | cons op ops ih =>
    rw [requestsOf, Runs.ever_append]
    refine or_congr ?_ (ih (lifetimes_step hl op))
    constructor
    · rintro ⟨ptr, rfl, hok⟩
      exact Or.inl ⟨ptr, rfl, (perform_deallocate_eq_ok_iff hl).mp hok⟩
    · intro h
      rcases g.requests_short op with hr | ⟨r, hr⟩ <;> rw [hr] at h
      · exact h.elim
      · obtain ⟨ptr, rfl, hok⟩ := h.resolve_right id
        have hop := mem_requests_deallocate.mp (hr ▸ List.mem_singleton_self _)
        exact ⟨ptr, hop, hop ▸ (perform_deallocate_eq_ok_iff hl).mpr hok⟩

/-- A run that names key zero in no release is regular. -/
theorem regular_requestsOf {ops : List Operation} (h : ∀ ptr lock, .deallocate ptr 0 lock ∉ ops)
    (w : Lifetimes.Watched) : Runs.Always Lifetimes.Watched.step Lifetimes.Watched.Regular w
      (g.requestsOf ops) := by
  induction ops generalizing g w with
  | nil => trivial
  | cons op ops ih =>
    rw [requestsOf, Runs.always_append]
    refine ⟨?_, ih (fun ptr lock hm => h ptr lock (List.mem_cons_of_mem _ hm)) _⟩
    rcases g.requests_short op with hr | ⟨r, hr⟩ <;> rw [hr]
    · trivial
    · refine ⟨?_, trivial⟩
      rintro ptr lock rfl _
      have hop := mem_requests_deallocate.mp (hr ▸ List.mem_singleton_self _)
      exact absurd (hop ▸ List.mem_cons_self ..) (h ptr lock)

end Guard

end PointerGuard
