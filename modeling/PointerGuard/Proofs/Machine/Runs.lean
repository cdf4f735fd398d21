import PointerGuard.Proofs.Machine.Operations

namespace PointerGuard

variable {host : Host}

open Checked

namespace Lifetimes

variable {l : Lifetimes}

/-- As long as the counter does not wrap, a request that takes a key finds one. -/
theorem always_spare (rs : List Request) (hn : l.nextKey.toNat + l.keysDrawn rs < 1 <<< 64) :
    Runs.Always step Spare l rs := by
  induction rs generalizing l with
  | nil => trivial
  | cons r rs ih =>
    have hcount := toNat_nextKey_step r rs hn
    refine ⟨fun hne => ?_, ih (hcount ▸ hn)⟩
    have hdraw : l.keysDrawn (r :: rs) = 1 + (l.step r).keysDrawn rs := by
      rw [keysDrawn, Runs.tally, if_pos (bne_iff_ne.mpr hne)]
      rfl
    omega

end Lifetimes

namespace Guard

variable {mode : Mode} {g start : Guard mode}

/-- The outcomes of a run. -/
def answers (g : Guard mode) : List Operation → List (Except Violation Answer)
  | [] => []
  | op :: ops => ((perform op).run g).1 :: (g.step op).answers ops

/-- A run on the checked machine. It goes on after a violation, which is one of its outcomes; a trap
ends it. -/
def runOrTrap (g : Guard mode) :
    List Operation → Checked (List (Except Violation Answer) × Guard mode)
  | [] => .ok ([], g)
  | op :: ops => do
    let outcome ← caught ((performOrTrap op).run g).1
    let (outcomes, g') ← runOrTrap ((performOrTrap op).run g).2 ops
    .ok (outcome :: outcomes, g')

/-- Links, slots and free places lead to what there is: the cells, the secondary tables and the
handles. A slot of the primary table counts the tables from one. -/
structure Contained (g : Guard mode) : Prop where
  slots : ∀ segment < g.trie.primary.len, g.trie.primary.get segment ≤ g.trie.tables.size
  places : ∀ i ∈ g.proxies.closed, i < g.proxies.spans.size
  head : ∀ l, g.lifetimes = some l → l.heap.freeHead = linkEnd ∨ l.heap.freeHead < l.heap.cells.len
  links : ∀ l, g.lifetimes = some l → ∀ i < l.heap.links.len,
    l.heap.links.get i = linkEnd ∨ l.heap.links.get i < l.heap.cells.len

theorem WellFormed.contained (h : g.WellFormed) : g.Contained where
  slots _ hs := h.trie.slot_le hs
  places i hi := (Array.getElem?_eq_some_iff.mp (h.proxies.vacant i hi)).1
  head l hl := (h.lifetimes l hl).heap.head
  links l hl i _ := (h.lifetimes l hl).heap.links i

theorem wellFormed_create {config : Config} (h : Guard.create host config = .ok g)
    (hp : config.vaArgProxies < 1 <<< 64) : g.WellFormed := by
  obtain ⟨hvalid, hr⟩ := reserve_of_create h
  obtain ⟨ht, hs, hproxies, _⟩ := reserve_eq_ok hr
  obtain ⟨_, hlocks, _⟩ := Config.validate_eq_ok_iff.mp hvalid
  exact {
    trie := Trie.wellFormed_create ht
    shadow := ShadowStack.framed_create hs
    proxies := hproxies ▸ Proxies.sound_empty hp
    lifetimes := fun l hl => Lifetimes.wellFormed_create (lifetimes_create h hl) hlocks.le }

/-- A run whose requests find the keys they take is one whose operations do. -/
theorem always_spare {ops : List Operation}
    (h : ∀ l, g.lifetimes = some l → Runs.Always Lifetimes.step Lifetimes.Spare l (g.requestsOf ops)) :
    Runs.Always step Spare g ops := by
  induction ops generalizing g with
  | nil => trivial
  | cons op ops ih =>
    refine ⟨fun l hl r hr => ?_, ih fun l' hl' => ?_⟩
    · have hall := h l hl
      rw [requestsOf, Runs.always_append] at hall
      rcases g.requests_short op with hnone | ⟨r', hone⟩
      · rw [hnone] at hr
        cases hr
      · rw [hone] at hr hall
        exact List.mem_singleton.mp hr ▸ hall.1.1
    · cases hl : g.lifetimes with
      | none =>
        have hnone := (effect_perform op g).lifetimes
        rw [hl] at hnone
        cases hnone.symm.trans hl'
      | some l =>
        have hall := h l hl
        rw [requestsOf, Runs.always_append] at hall
        cases (lifetimes_step hl op).symm.trans hl'
        exact hall.2

/-- A run of a well-formed guard does not trap, and the guard stays well formed. -/
theorem runOrTrap_eq (h : g.WellFormed) {ops : List Operation} (hl : ∀ op ∈ ops, op.Short)
    (hs : Runs.Always step Spare g ops) :
    g.runOrTrap ops = .ok (g.answers ops, g.after ops) ∧ (g.after ops).WellFormed := by
  induction ops generalizing g with
  | nil => exact ⟨rfl, h⟩
  | cons op ops ih =>
    obtain ⟨hop, hrest⟩ := hs
    obtain ⟨hrun, hkept⟩ := agrees_perform h hop (hl op (List.mem_cons_self ..))
    obtain ⟨htail, hend⟩ := ih hkept (fun op' hm => hl op' (List.mem_cons_of_mem _ hm)) hrest
    refine ⟨?_, hend⟩
    rw [runOrTrap, hrun, caught_of, ok_bind, htail, ok_bind]
    rfl

/-- No run traps while keys are left, and its outcomes are those of the plain run. -/
theorem never_traps {config : Config} (hc : Guard.create host config = .ok start)
    (hp : config.vaArgProxies < 1 <<< 64) (ops : List Operation) (hl : ∀ op ∈ ops, op.Short)
    (hkeys : start.keysDrawn ops < 2 ^ 64 - 2) :
    start.runOrTrap ops = .ok (start.answers ops, start.after ops) ∧ (start.after ops).Contained := by
  have hspare : Runs.Always step Spare start ops := by
    refine always_spare fun l hls => Lifetimes.always_spare _ ?_
    have hfirst := Lifetimes.toNat_nextKey_create (lifetimes_create hc hls)
    rw [← keysDrawn_eq hls]
    omega
  obtain ⟨hrun, hend⟩ := runOrTrap_eq (wellFormed_create hc hp) hl hspare
  exact ⟨hrun, hend.contained⟩

/-- A cell that is released twice is given out twice, and the words named are the last ones there
are. -/
theorem never_traps_after_double_release :
    ∃ start : Guard .combined,
      Guard.create .standard { Config.compact with freeMap := false } = .ok start ∧
      let ops : List Operation := [.allocate 0x1000, .deallocate 0x1000 2 heapLocksAddr,
        .deallocate 0x1000 0 heapLocksAddr, .allocate 0x2000, .allocate 0x3000,
        .pushFrame 0xffffffffffffffff, .popFrame,
        .copyMetadata 0xfffffffffffffff8 0 0xffffffffffffffff,
        .registerStrings 0x5000 [(0xffffffffffffffff, 0xffffffffffffffff)]]
      (∀ op ∈ ops, op.Short) ∧ start.keysDrawn ops < 2 ^ 64 - 2 ∧
      start.answers ops = [.ok (.lease ⟨2, heapLocksAddr⟩), .ok .done, .ok .done,
        .ok (.lease ⟨3, heapLocksAddr⟩), .ok (.lease ⟨4, heapLocksAddr⟩),
        .error (.exhausted .shadowStack), .error .shadowStackUnderflow,
        .error (.untrackableAddress 0xfffffffffffffff8),
        .error (.untrackableAddress 0xffffffffffffffff)] ∧
      start.runOrTrap ops = .ok (start.answers ops, start.after ops) ∧
      (start.after ops).Contained := by
  have hc : (Guard.create .standard { Config.compact with freeMap := false } :
      Except _ (Guard .combined)) = .ok _ := rfl
  refine ⟨_, hc, ?_⟩
  intro ops
  have hl : ∀ op ∈ ops, op.Short := by simp [ops, Operation.Short]
  refine ⟨hl, ?hkeys, by decide +kernel, never_traps hc (by decide) ops hl ?hkeys⟩
  decide +kernel

end Guard

end PointerGuard
