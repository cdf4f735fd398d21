import PointerGuard.Proofs.Creation
import PointerGuard.Proofs.Lifetimes.FreeList
import PointerGuard.Proofs.Lifetimes.LockTables
import PointerGuard.Proofs.Lifetimes.Requests

namespace PointerGuard

namespace Lifetimes

variable {l l' : Lifetimes} {r : Request} {a : Except Violation (Option Lease)}

/-- The tables of lock cells lie apart, none of them at zero, the global cell holds its key, and the
stack cells from the top on hold zero. -/
structure Placed (l : Lifetimes) : Prop where
  apart : LockTable.Apart l.lockTables
  based : ∀ x ∈ l.lockTables.map LockTable.extent, x.base ≠ 0
  global : l.global.holds = globalKey
  stack_top : ∀ s, l.stack = .perCall s → s.top ≤ s.cells.len
  vacant : ∀ s, l.stack = .perCall s → ∀ i, s.top ≤ i → s.cells.get i = 0

/-- A table in a mapping of its own ends within the words. -/
theorem fits_of_map {host : Host} {region : Region} {base : Word} {len : Nat}
    (h : host.map region (len * 8) = some base) : Extent.Fits ⟨base, 8, len⟩ :=
  ⟨Nat.succ_pos 7, host.fits h⟩

theorem disjoint_of_map {host : Host} {region region' : Region} {base base' : Word} {len len' : Nat}
    (hne : region ≠ region') (h : host.map region (len * 8) = some base)
    (h' : host.map region' (len' * 8) = some base') :
    Disjoint (Extent.bytes ⟨base, 8, len⟩) (Extent.bytes ⟨base', 8, len'⟩) := by
  rcases host.apart hne h h' with hle | hle
  · exact Extent.disjoint_of_le hle
  · exact (Extent.disjoint_of_le hle).symm

theorem placed_create {host : Host} {lockEntries stackEntries : Nat} {policy : StackLockPolicy}
    {freeMapEntries : Option Nat}
    (h : Lifetimes.create host lockEntries policy stackEntries freeMapEntries = .ok l) :
    l.Placed := by
  obtain ⟨_, hglobal, hheap, _, hstack, _⟩ := Lifetimes.create_eq_ok h
  obtain ⟨hholds, hg⟩ := createGlobal_eq_ok hglobal
  obtain ⟨hlen, hh⟩ := LockArena.create_eq_ok hheap
  have hextent : l.heap.extent = ⟨l.heap.base, 8, lockEntries⟩ := by rw [hlen]; rfl
  have hstacked : ∀ s, l.stack = .perCall s → s.extent = ⟨s.base, 8, stackEntries⟩ ∧
      host.map .stackLocks (stackEntries * 8) = some s.base := by
    intro s hs
    obtain ⟨hfresh, hbase⟩ := LockStack.create_eq_ok (hstack s hs)
    exact ⟨by rw [hfresh]; rfl, hbase⟩
  refine ⟨apart_of_disjoint (fits_of_map hg) (hextent ▸ fits_of_map hh) (fun s hs => ?_)
    (hextent ▸ disjoint_of_map (by decide) hg hh) (fun s hs => ?_), ?_, hholds, fun s hs => ?_,
    fun s hs i _ => ?_⟩
  · obtain ⟨hx, hbase⟩ := hstacked s hs
    exact hx ▸ fits_of_map hbase
  · obtain ⟨hx, hbase⟩ := hstacked s hs
    rw [hx, hextent]
    exact ⟨disjoint_of_map (by decide) hg hbase, disjoint_of_map (by decide) hh hbase⟩
  · simp only [lockTables, List.map_cons, List.forall_mem_cons, List.forall_mem_map,
      StackLocks.mem_tables_iff]
    refine ⟨host.base_ne_zero hg, host.base_ne_zero hh, ?_⟩
    rintro _ ⟨s, hs, rfl⟩
    exact host.base_ne_zero (hstacked s hs).2
  · rw [(LockStack.create_eq_ok (hstack s hs)).1]
    exact Nat.zero_le _
  · rw [(LockStack.create_eq_ok (hstack s hs)).1]
    exact Table.get_empty _ _

theorem Placed.of_heap (h : l.Placed) (hg : l'.global = l.global)
    (hb : l'.heap.base = l.heap.base) (hc : l'.heap.cells.len = l.heap.cells.len)
    (hs : l'.stack = l.stack) : l'.Placed := by
  have hx : l'.lockTables.map LockTable.extent = l.lockTables.map LockTable.extent := by
    simp only [lockTables, List.map_cons, hg, hs, LockArena.table, LockArena.extent, hb, hc]
  exact ⟨h.apart.of_extents hx, hx ▸ h.based, hg ▸ h.global, hs ▸ h.stack_top, hs ▸ h.vacant⟩

theorem Placed.of_stack (h : l.Placed) {s s' : LockStack} (hg : l'.global = l.global)
    (hh : l'.heap = l.heap) (hs : l.stack = .perCall s) (hs' : l'.stack = .perCall s')
    (hx : s'.extent = s.extent) (htop : s'.top ≤ s'.cells.len)
    (hvacant : ∀ i, s'.top ≤ i → s'.cells.get i = 0) : l'.Placed := by
  have hxs : l'.lockTables.map LockTable.extent = l.lockTables.map LockTable.extent := by
    simp only [lockTables, List.map_cons, hg, hh, hs, hs', StackLocks.tables, List.map_nil,
      LockStack.table, hx]
  refine ⟨h.apart.of_extents hxs, hxs ▸ h.based, hg ▸ h.global, ?_, ?_⟩
  · rw [hs']
    rintro _ ⟨⟩
    exact htop
  · rw [hs']
    rintro _ ⟨⟩
    exact hvacant

theorem Placed.give (h : l.Placed) {s : LockStack} {key : Word} (hg : l'.global = l.global)
    (hh : l'.heap = l.heap) (hs : l.stack = .perCall s) (hf : s.top ≠ s.cells.len)
    (hs' : l'.stack = .perCall (s.give key)) : l'.Placed := by
  have htop := h.stack_top s hs
  refine h.of_stack hg hh hs hs' rfl (show s.top + 1 ≤ s.cells.len by omega) fun i hi => ?_
  have hlt : s.top + 1 ≤ i := hi
  rw [LockStack.give, Table.get_set_of_ne (by omega)]
  exact h.vacant s hs i (by omega)

theorem Placed.takeBack (h : l.Placed) {s : LockStack} (hg : l'.global = l.global)
    (hh : l'.heap = l.heap) (hs : l.stack = .perCall s)
    (hs' : l'.stack = .perCall s.takeBack) : l'.Placed := by
  have htop := h.stack_top s hs
  refine h.of_stack hg hh hs hs' rfl (show s.top - 1 ≤ s.cells.len by omega) fun i hi => ?_
  have hle : s.top - 1 ≤ i := hi
  rw [LockStack.takeBack, Table.get_set]
  split
  next => rfl
  next hne => exact h.vacant s hs i (by omega)

theorem Change.placed (hp : l.Placed) (h : Change l r a l') : l'.Placed := by
  cases h with
  | refused => exact hp
  | granted _ ha _ =>
    obtain ⟨hb, hc⟩ := LockArena.acquire_keeps ha
    exact hp.of_heap rfl hb (by simp [LockArena.assign, hc]) rfl
  | turnedAway _ ha _ _ =>
    obtain ⟨hb, hc⟩ := LockArena.acquire_keeps ha
    exact hp.of_heap rfl hb (by simp [LockArena.release, hc]) rfl
  | released _ _ _ => exact hp.of_heap rfl rfl rfl rfl
  | moved _ => exact hp.of_heap rfl rfl rfl rfl
  | restored _ _ _ _ => exact hp.of_heap rfl rfl rfl rfl
  | shared _ => exact hp
  | pushed hs hf => exact hp.give rfl rfl hs hf rfl
  | ignored _ => exact hp
  | popped hs _ _ => exact hp.takeBack rfl rfl hs rfl

theorem Placed.heap_base_ne_zero (h : l.Placed) : l.heap.base ≠ 0 :=
  h.based _ (List.mem_map_of_mem l.heap_mem_lockTables)

theorem Placed.heap_fits (h : l.Placed) : l.heap.extent.Fits :=
  h.apart.fits _ l.heap_mem_lockTables

theorem Placed.stack_fits (h : l.Placed) {s : LockStack} (hs : l.stack = .perCall s) :
    s.extent.Fits :=
  h.apart.fits _ (stack_mem_lockTables hs)

theorem cell?_of_global (h : l.Placed) : l.cell? l.global.addr = some globalKey := by
  rw [cell?, if_pos rfl, h.global]

theorem cell?_of_heap (h : l.Placed) {lock w : Word} (ho : l.heap.observe lock = some w) :
    l.cell? lock = some w := by
  obtain ⟨i, hi, rfl⟩ := Option.map_eq_some_iff.mp ho
  exact (l.cell?_eq_search lock).trans (h.apart.search_eq l.heap_mem_lockTables hi)

theorem Placed.indexOf_global (h : l.Placed) : l.heap.indexOf l.global.addr = none := by
  have hdisjoint := (List.pairwise_cons.mp h.apart.disjoint).1 l.heap.table List.mem_cons_self
  rw [LockArena.indexOf, Option.eq_none_iff_forall_ne_some]
  intro i hi
  have hcell : l.heap.extent.HasCell l.global.addr :=
    (Extent.hasCell_iff h.heap_fits).mpr ⟨i, hi⟩
  have hown : l.global.extent.HasCell l.global.addr :=
    (Extent.hasCell_iff (h.apart.fits _ l.global_mem_lockTables)).mpr
      ⟨0, (l.global.indexOf_extent _).trans (if_pos rfl)⟩
  exact Extent.not_hasCell_of_disjoint (h.apart.fits _ l.global_mem_lockTables) h.heap_fits
    hdisjoint hown hcell

theorem cell?_of_stack (h : l.Placed) {s : LockStack} {lock : Word} {i : Nat}
    (hs : l.stack = .perCall s) (hi : s.extent.indexOf lock = some i) :
    l.cell? lock = some (s.cells.get i) :=
  (l.cell?_eq_search lock).trans (h.apart.search_eq (stack_mem_lockTables hs) hi)

theorem check_eq_ok_iff {key lock : Word} :
    l.check key lock = .ok () ↔ l.cell? lock = some key := by
  unfold check observe
  cases hc : l.cell? lock with
  | none => simp
  | some w => by_cases hw : w = key <;> simp [hw]

theorem cell?_of_set {i : Nat} {w : Word} (hp : l.Placed) (hg : l'.global = l.global)
    (hb : l'.heap.base = l.heap.base) (hc : l'.heap.cells = l.heap.cells.set i w)
    (hs : l'.stack = l.stack) (lock : Word) :
    l'.cell? lock = l.cell? lock ∨ lock = l.heap.addrOf i ∧ l'.cell? lock = some w := by
  have hobs := LockArena.observe_of_set hb hc lock
  by_cases hi : l.heap.indexOf lock = some i
  · rw [if_pos hi] at hobs
    have hp' : l'.Placed := hp.of_heap hg hb (by rw [hc, Table.len_set]) hs
    obtain ⟨_, rfl⟩ := (Extent.indexOf_eq_some_iff hp.heap_fits).mp hi
    exact Or.inr ⟨rfl, cell?_of_heap hp' hobs⟩
  · rw [if_neg hi] at hobs
    exact Or.inl (by rw [cell?, cell?, hobs, hs, hg])

theorem cell?_of_stackSet {s s' : LockStack} {i : Nat} {w : Word} (hp : l.Placed)
    (hp' : l'.Placed) (hg : l'.global = l.global) (hh : l'.heap = l.heap)
    (hs : l.stack = .perCall s) (hs' : l'.stack = .perCall s') (hb : s'.base = s.base)
    (hc : s'.cells = s.cells.set i w) (lock : Word) :
    l'.cell? lock = l.cell? lock ∨ lock = s.extent.addrOf i ∧ l'.cell? lock = some w := by
  have hx : s'.extent = s.extent := by rw [LockStack.extent, LockStack.extent, hb, hc, Table.len_set]
  cases hi : s.extent.indexOf lock with
  | none =>
    refine Or.inl ?_
    simp [cell?, hg, hh, hs, hs', StackLocks.observe, LockStack.observe, hx, hi]
  | some j =>
    rw [cell?_of_stack hp' hs' (hx ▸ hi), cell?_of_stack hp hs hi, hc, Table.get_set]
    by_cases hj : j = i
    · subst hj
      obtain ⟨_, rfl⟩ := (Extent.indexOf_eq_some_iff (hp.stack_fits hs)).mp hi
      exact Or.inr ⟨rfl, by rw [if_pos rfl]⟩
    · exact Or.inl (by rw [if_neg hj])

theorem Placed.indexOf_newest (h : l.Placed) {s : LockStack} (hs : l.stack = .perCall s)
    (hz : s.top ≠ 0) : s.extent.indexOf (s.extent.addrOf (s.top - 1)) = some (s.top - 1) := by
  have htop := h.stack_top s hs
  exact Extent.indexOf_addrOf (h.stack_fits hs) (show s.top - 1 < s.cells.len by omega)

/-- A release of the newest stack cell writes zero to it. -/
theorem cell?_of_takeBack {s : LockStack} (hp : l.Placed) (hg : l'.global = l.global)
    (hh : l'.heap = l.heap) (hs : l.stack = .perCall s) (hs' : l'.stack = .perCall s.takeBack)
    (hz : s.top ≠ 0) : l'.cell? (s.extent.addrOf (s.top - 1)) = some 0 := by
  have hi : s.takeBack.extent.indexOf (s.extent.addrOf (s.top - 1)) = some (s.top - 1) :=
    hp.indexOf_newest hs hz
  rw [cell?_of_stack (hp.takeBack hg hh hs hs') hs' hi, LockStack.takeBack, Table.get_set_self]

/-- A request writes one cell at most: zero, or a key that it takes from the counter. -/
theorem Change.cell? (hp : l.Placed) (h : Change l r a l') :
    ∃ spot w, (w = 0 ∨ w = l.nextKey ∧ l'.nextKey = l.nextKey + 1) ∧
      ∀ lock, l'.cell? lock = l.cell? lock ∨ lock = spot ∧ l'.cell? lock = some w := by
  cases h with
  | refused => exact ⟨0, 0, Or.inl rfl, fun _ => Or.inl rfl⟩
  | @granted _ i heap _ _ ha _ =>
    obtain ⟨hb, hc⟩ := LockArena.acquire_keeps ha
    exact ⟨_, _, Or.inr ⟨rfl, rfl⟩,
      cell?_of_set hp rfl hb (by rw [LockArena.assign, hc]) rfl⟩
  | turnedAway _ ha _ _ =>
    obtain ⟨hb, hc⟩ := LockArena.acquire_keeps ha
    exact ⟨_, 0, Or.inl rfl, cell?_of_set hp rfl hb (by rw [LockArena.release, hc]) rfl⟩
  | released _ _ _ => exact ⟨_, 0, Or.inl rfl, cell?_of_set hp rfl rfl rfl rfl⟩
  | moved _ => exact ⟨0, 0, Or.inl rfl, fun _ => Or.inl rfl⟩
  | restored _ _ _ _ => exact ⟨0, 0, Or.inl rfl, fun _ => Or.inl rfl⟩
  | shared _ => exact ⟨0, 0, Or.inl rfl, fun _ => Or.inl rfl⟩
  | pushed hs hf =>
    exact ⟨_, _, Or.inr ⟨rfl, rfl⟩,
      cell?_of_stackSet hp (hp.give rfl rfl hs hf rfl) rfl rfl hs rfl rfl rfl⟩
  | ignored _ => exact ⟨0, 0, Or.inl rfl, fun _ => Or.inl rfl⟩
  | popped hs _ _ =>
    exact ⟨_, 0, Or.inl rfl,
      cell?_of_stackSet hp (hp.takeBack rfl rfl hs rfl) rfl rfl hs rfl rfl rfl⟩

theorem Change.nextKey (h : Change l r a l') :
    l'.nextKey = l.nextKey ∨ l'.nextKey = l.nextKey + 1 := by
  cases h <;> first | exact Or.inl rfl | exact Or.inr rfl

end Lifetimes

end PointerGuard
