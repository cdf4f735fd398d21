import PointerGuard.Proofs.Extents
import PointerGuard.Proofs.FreeMap.Records
import PointerGuard.Proofs.Runs

namespace PointerGuard.Lifetimes

inductive Request where
  | allocate (ptr : Word)
  | deallocate (ptr key lock : Word)
  | relocate (old new key : Word)
  | stackAllocate
  | stackDeallocate (key : Word)
deriving DecidableEq, Repr

/-- Serves a request and answers the lease that it issues, if it issues one. -/
def serve (l : Lifetimes) : Request → Except Violation (Option Lease) × Lifetimes
  | .allocate ptr =>
    match l.allocate ptr with
    | (.ok lease, l') => (.ok (some lease), l')
    | (.error v, l') => (.error v, l')
  | .deallocate ptr key lock =>
    match l.deallocate ptr key lock with
    | .ok l' => (.ok none, l')
    | .error v => (.error v, l)
  | .relocate old new key =>
    match l.relocate old new key with
    | (.ok (), l') => (.ok none, l')
    | (.error v, l') => (.error v, l')
  | .stackAllocate =>
    match l.stackAllocate with
    | .ok (lease, l') => (.ok (some lease), l')
    | .error v => (.error v, l)
  | .stackDeallocate key =>
    match l.stackDeallocate key with
    | .ok l' => (.ok none, l')
    | .error v => (.error v, l)

def step (l : Lifetimes) (r : Request) : Lifetimes := (l.serve r).2

/-- The lifetimes after a list of requests, whether they succeed or not. -/
def after (l : Lifetimes) (rs : List Request) : Lifetimes := rs.foldl step l

/-- The keys that a run takes from the counter; a failing allocation may take one as well. -/
def keysDrawn (l : Lifetimes) (rs : List Request) : Nat :=
  Runs.tally step (fun l r => (l.step r).nextKey != l.nextKey) l rs

attribute [local simp] step serve

theorem step_allocate (l : Lifetimes) (ptr : Word) : l.step (.allocate ptr) = (l.allocate ptr).2 := by
  simp only [step, serve]
  split
  next h => rw [h]
  next h => rw [h]

theorem step_relocate (l : Lifetimes) (old new key : Word) :
    l.step (.relocate old new key) = (l.relocate old new key).2 := by
  simp only [step, serve]
  split
  next h => rw [h]
  next h => rw [h]

theorem step_deallocate_of_ok {l l' : Lifetimes} {ptr key lock : Word}
    (h : l.deallocate ptr key lock = .ok l') : l.step (.deallocate ptr key lock) = l' := by
  simp [h]

theorem step_deallocate_of_error {l : Lifetimes} {ptr key lock : Word} {v : Violation}
    (h : l.deallocate ptr key lock = .error v) : l.step (.deallocate ptr key lock) = l := by
  simp [h]

theorem step_stackAllocate_of_ok {l l' : Lifetimes} {lease : Lease}
    (h : l.stackAllocate = .ok (lease, l')) : l.step .stackAllocate = l' := by
  simp [h]

theorem step_stackAllocate_of_error {l : Lifetimes} {v : Violation}
    (h : l.stackAllocate = .error v) : l.step .stackAllocate = l := by
  simp [h]

theorem step_stackDeallocate_of_ok {l l' : Lifetimes} {key : Word}
    (h : l.stackDeallocate key = .ok l') : l.step (.stackDeallocate key) = l' := by
  simp [h]

theorem step_stackDeallocate_of_error {l : Lifetimes} {key : Word} {v : Violation}
    (h : l.stackDeallocate key = .error v) : l.step (.stackDeallocate key) = l := by
  simp [h]

theorem after_append (l : Lifetimes) (rs qs : List Request) :
    l.after (rs ++ qs) = (l.after rs).after qs :=
  List.foldl_append ..

/-- What serving a request can do. -/
inductive Change (l : Lifetimes) : Request → Except Violation (Option Lease) → Lifetimes → Prop
  | refused (r : Request) (v : Violation) : Change l r (.error v) l
  | granted {ptr : Word} {i : Nat} {heap : LockArena} {map : Option FreeMap} : ptr ≠ 0 →
      l.heap.acquire = .ok (i, heap) →
      Option.Rel (fun m m' => m.insert l.nextKey ptr = .ok m') l.freeMap map →
      Change l (.allocate ptr) (.ok (some ⟨l.nextKey, heap.addrOf i⟩))
        { l with nextKey := l.nextKey + 1, heap := heap.assign i l.nextKey, freeMap := map }
  | turnedAway {ptr : Word} {i : Nat} {heap : LockArena} {map : FreeMap} {v : Violation} :
      ptr ≠ 0 → l.heap.acquire = .ok (i, heap) → l.freeMap = some map →
      map.insert l.nextKey ptr = .error v →
      Change l (.allocate ptr) (.error v)
        { l with nextKey := l.nextKey + 1, heap := heap.release i }
  | released {ptr key lock : Word} {i : Nat} {map : Option FreeMap} :
      l.heap.indexOf lock = some i → l.heap.cells.get i = key →
      Option.Rel (fun m m' => m.remove key ptr = .ok m') l.freeMap map →
      Change l (.deallocate ptr key lock) (.ok none)
        { l with heap := l.heap.release i, freeMap := map }
  | moved {old new key : Word} {map : Option FreeMap} :
      Option.Rel (fun m m' => ∃ removed, m.remove key old = .ok removed ∧
        removed.insert key new = .ok m') l.freeMap map →
      Change l (.relocate old new key) (.ok none) { l with freeMap := map }
  | restored {old new key : Word} {map removed map' : FreeMap} {v : Violation} :
      l.freeMap = some map → map.remove key old = .ok removed →
      removed.insert key new = .error v → removed.insert key old = .ok map' →
      Change l (.relocate old new key) (.error v) { l with freeMap := some map' }
  | shared : l.stack = .shared →
      Change l .stackAllocate (.ok (some ⟨globalKey, l.global.addr⟩)) l
  | pushed {stack : LockStack} : l.stack = .perCall stack → stack.top ≠ stack.cells.len →
      Change l .stackAllocate (.ok (some ⟨l.nextKey, stack.extent.addrOf stack.top⟩))
        { l with nextKey := l.nextKey + 1, stack := .perCall (stack.give l.nextKey) }
  | ignored {key : Word} : l.stack = .shared → Change l (.stackDeallocate key) (.ok none) l
  | popped {key : Word} {stack : LockStack} : l.stack = .perCall stack → stack.top ≠ 0 →
      stack.cells.get (stack.top - 1) = key →
      Change l (.stackDeallocate key) (.ok none) { l with stack := .perCall stack.takeBack }

theorem change_allocate (l : Lifetimes) (ptr : Word) :
    Change l (.allocate ptr) (l.serve (.allocate ptr)).1 (l.serve (.allocate ptr)).2 := by
  by_cases hp : ptr = 0
  · rw [serve, allocate, if_pos hp]
    exact .refused _ _
  · rw [serve, allocate, if_neg hp]
    cases ha : l.heap.acquire with
    | error v => exact .refused _ v
    | ok taken =>
      obtain ⟨i, heap⟩ := taken
      obtain ⟨key, global, arena, stack, map⟩ := l
      cases map with
      | none => exact .granted hp ha .none
      | some map =>
        cases hi : map.insert key ptr with
        | error v =>
          simp only [hi]
          exact .turnedAway hp ha rfl hi
        | ok map' =>
          simp only [hi]
          exact .granted hp ha (.some hi)

theorem change_deallocate (l : Lifetimes) (ptr key lock : Word) :
    Change l (.deallocate ptr key lock) (l.serve (.deallocate ptr key lock)).1
      (l.serve (.deallocate ptr key lock)).2 := by
  rw [serve, deallocate]
  cases hi : l.heap.indexOf lock with
  | none => exact .refused _ _
  | some i =>
    by_cases hc : l.heap.cells.get i = key
    · obtain ⟨next, global, arena, stack, map⟩ := l
      dsimp only at hi hc
      cases map with
      | none =>
        simp only [hc, ne_eq, not_true_eq_false, ↓reduceIte]
        exact .released hi hc .none
      | some map =>
        cases hr : map.remove key ptr with
        | error v =>
          simp only [hc, hr, ne_eq, not_true_eq_false, ↓reduceIte]
          exact .refused _ v
        | ok map' =>
          simp only [hc, hr, ne_eq, not_true_eq_false, ↓reduceIte]
          exact .released hi hc (.some hr)
    · simp only [hc, ne_eq, not_false_eq_true, ↓reduceIte]
      exact .refused _ _

theorem change_relocate (l : Lifetimes) (old new key : Word) :
    Change l (.relocate old new key) (l.serve (.relocate old new key)).1
      (l.serve (.relocate old new key)).2 := by
  rw [serve, relocate]
  obtain ⟨next, global, arena, stack, map⟩ := l
  cases map with
  | none => exact .moved .none
  | some map =>
    cases hr : map.remove key old with
    | error v =>
      simp only [hr]
      exact .refused _ v
    | ok removed =>
      cases hn : removed.insert key new with
      | ok map' =>
        simp only [hr, hn]
        exact .moved (.some ⟨removed, hr, hn⟩)
      | error v =>
        obtain ⟨map', hm⟩ := FreeMap.insert_of_remove hr key (FreeMap.isMarker_of_remove hr)
        simp only [hr, hn, hm]
        exact .restored rfl hr hn hm

theorem change_stackAllocate (l : Lifetimes) :
    Change l .stackAllocate (l.serve .stackAllocate).1 (l.serve .stackAllocate).2 := by
  rw [serve, stackAllocate]
  cases hs : l.stack with
  | shared => exact .shared hs
  | perCall stack =>
    by_cases hf : stack.top = stack.cells.len
    · simp only [LockStack.push, hf, ↓reduceIte]
      exact .refused _ _
    · simp only [LockStack.push, hf, ↓reduceIte]
      exact .pushed hs hf

theorem change_stackDeallocate (l : Lifetimes) (key : Word) :
    Change l (.stackDeallocate key) (l.serve (.stackDeallocate key)).1
      (l.serve (.stackDeallocate key)).2 := by
  rw [serve, stackDeallocate]
  cases hs : l.stack with
  | shared => exact .ignored hs
  | perCall stack =>
    by_cases hz : stack.top = 0
    · simp only [LockStack.pop, hz, ↓reduceIte]
      exact .refused _ _
    · by_cases hk : stack.cells.get (stack.top - 1) = key
      · simp only [LockStack.pop, hz, hk, ↓reduceIte]
        exact .popped hs hz hk
      · simp only [LockStack.pop, hz, hk, ↓reduceIte]
        exact .refused _ _

theorem change_serve (l : Lifetimes) (r : Request) : Change l r (l.serve r).1 (l.serve r).2 := by
  cases r with
  | allocate ptr => exact change_allocate l ptr
  | deallocate ptr key lock => exact change_deallocate l ptr key lock
  | relocate old new key => exact change_relocate l old new key
  | stackAllocate => exact change_stackAllocate l
  | stackDeallocate key => exact change_stackDeallocate l key

theorem change_step (l : Lifetimes) (r : Request) : Change l r (l.serve r).1 (l.step r) :=
  change_serve l r

/-- No request writes to the global cell or moves it. -/
theorem Change.global {l l' : Lifetimes} {r : Request} {a : Except Violation (Option Lease)}
    (h : Change l r a l') : l'.global = l.global := by
  cases h <;> rfl

/-- No run writes to the global cell or moves it. -/
theorem global_after (l : Lifetimes) (rs : List Request) : (l.after rs).global = l.global :=
  Runs.foldl_invariant (I := fun k => k.global = l.global)
    (fun k r hk => (change_step k r).global.trans hk) rs rfl

end PointerGuard.Lifetimes
