import PointerGuard.Proofs.Extents

namespace PointerGuard

/-- A table of lock cells: where it lies, and what its cells hold. -/
structure LockTable where
  extent : Extent
  held : Nat → Word

namespace LockTable

variable {t : LockTable} {tables : List LockTable} {lock : Word} {i : Nat}

/-- What the cell at an address holds. -/
def read (t : LockTable) (lock : Word) : Option Word := (t.extent.indexOf lock).map t.held

/-- What the cell at an address holds in the first table that has one there. -/
def search (tables : List LockTable) (lock : Word) : Option Word :=
  tables.findSome? fun t => t.read lock

/-- Every table ends within the words, and no two have a byte in common. -/
structure Apart (tables : List LockTable) : Prop where
  fits : ∀ t ∈ tables, t.extent.Fits
  disjoint : tables.Pairwise fun t u => Disjoint t.extent.bytes u.extent.bytes

theorem read_eq_none (ht : t.extent.Fits) (h : ¬t.extent.HasCell lock) : t.read lock = none := by
  rw [read, Option.map_eq_none_iff, Option.eq_none_iff_forall_ne_some]
  exact fun i hi => h ((Extent.hasCell_iff ht).mpr ⟨i, hi⟩)

theorem Apart.not_hasCell (h : Apart tables) {m n : Nat} (hm : m < tables.length)
    (hn : n < tables.length) (hlt : m < n) (hcell : tables[m].extent.HasCell lock) :
    ¬tables[n].extent.HasCell lock :=
  Extent.not_hasCell_of_disjoint (h.fits _ (List.getElem_mem hm)) (h.fits _ (List.getElem_mem hn))
    (List.pairwise_iff_getElem.mp h.disjoint m n hm hn hlt) hcell

/-- One table at most has a cell at an address. -/
theorem Apart.unique (h : Apart tables) {m n : Nat} (hm : m < tables.length)
    (hn : n < tables.length) (hcm : tables[m].extent.HasCell lock)
    (hcn : tables[n].extent.HasCell lock) : m = n := by
  rcases Nat.lt_trichotomy m n with hlt | heq | hgt
  · exact absurd hcn (h.not_hasCell hm hn hlt hcm)
  · exact heq
  · exact absurd hcm (h.not_hasCell hn hm hgt hcn)

/-- The tables before the one that has the cell have none there, so the search gets to it. -/
theorem Apart.search_eq (h : Apart tables) (ht : t ∈ tables) (hi : t.extent.indexOf lock = some i) :
    search tables lock = some (t.held i) := by
  obtain ⟨before, after, rfl⟩ := List.append_of_mem ht
  have hfits := h.fits t ht
  have hcell : t.extent.HasCell lock := (Extent.hasCell_iff hfits).mpr ⟨i, hi⟩
  have hbefore : ∀ u ∈ before, u.read lock = none := by
    intro u hu
    have hu' := h.fits u (List.mem_append_left _ hu)
    have hd := (List.pairwise_append.mp h.disjoint).2.2 u hu t List.mem_cons_self
    exact read_eq_none hu' (Extent.not_hasCell_of_disjoint hfits hu' hd.symm hcell)
  refine List.findSome?_eq_some_iff.mpr ⟨before, t, after, rfl, ?_, hbefore⟩
  rw [read, hi, Option.map_some]

theorem Apart.search_eq_none (h : Apart tables)
    (hno : ∀ t ∈ tables, ¬t.extent.HasCell lock) : search tables lock = none :=
  List.findSome?_eq_none_iff.mpr fun t ht => read_eq_none (h.fits t ht) (hno t ht)

/-- Whether tables lie apart does not depend on what their cells hold. -/
theorem Apart.of_extents {tables' : List LockTable} (h : Apart tables)
    (heq : tables'.map extent = tables.map extent) : Apart tables' := by
  have hfits : ∀ x ∈ tables'.map extent, x.Fits := heq ▸ List.forall_mem_map.mpr h.fits
  have hdisjoint : (tables'.map extent).Pairwise fun x y => Disjoint x.bytes y.bytes := by
    rw [heq, List.pairwise_map]
    exact h.disjoint
  rw [List.pairwise_map] at hdisjoint
  exact ⟨List.forall_mem_map.mp hfits, hdisjoint⟩

end LockTable

def LockArena.table (a : LockArena) : LockTable := ⟨a.extent, a.cells.get⟩

def LockStack.table (s : LockStack) : LockTable := ⟨s.extent, s.cells.get⟩

/-- Under the shared policy stack locks have no table of their own. -/
def StackLocks.tables : StackLocks → List LockTable
  | perCall stack => [stack.table]
  | shared => []

theorem StackLocks.mem_tables_iff {stack : StackLocks} {t : LockTable} :
    t ∈ stack.tables ↔ ∃ s, stack = .perCall s ∧ t = s.table := by
  cases stack <;> simp [tables]

namespace LockCell

def extent (c : LockCell) : Extent := ⟨c.addr, 8, 1⟩

def table (c : LockCell) : LockTable := ⟨c.extent, fun _ => c.holds⟩

theorem indexOf_extent (c : LockCell) (lock : Word) :
    c.extent.indexOf lock = if lock = c.addr then some 0 else none := by
  unfold Extent.indexOf extent
  dsimp only
  by_cases h : lock = c.addr
  · rw [if_pos h, h, if_pos (by omega), Nat.sub_self, Nat.zero_div]
  · have hne : lock.toNat ≠ c.addr.toNat := fun heq => h (UInt64.toNat_inj.mp heq)
    rw [if_neg h, if_neg (by omega)]

theorem read_table (c : LockCell) (lock : Word) :
    c.table.read lock = if lock = c.addr then some c.holds else none := by
  rw [LockTable.read, table, indexOf_extent]
  split <;> rfl

end LockCell

namespace Lifetimes

variable {l : Lifetimes} {s : LockStack}

/-- The tables of lock cells, in the order in which a lookup tries them. -/
def lockTables (l : Lifetimes) : List LockTable :=
  l.global.table :: l.heap.table :: l.stack.tables

theorem global_mem_lockTables (l : Lifetimes) : l.global.table ∈ l.lockTables :=
  List.mem_cons_self

theorem heap_mem_lockTables (l : Lifetimes) : l.heap.table ∈ l.lockTables :=
  List.mem_cons_of_mem _ List.mem_cons_self

theorem stack_mem_lockTables (hs : l.stack = .perCall s) : s.table ∈ l.lockTables := by
  simp [lockTables, hs, StackLocks.tables]

theorem apart_of_disjoint (hcell : l.global.extent.Fits) (hheap : l.heap.extent.Fits)
    (hstack : ∀ s, l.stack = .perCall s → s.extent.Fits)
    (hglobal : Disjoint l.global.extent.bytes l.heap.extent.bytes)
    (hdisjoint : ∀ s, l.stack = .perCall s → Disjoint l.global.extent.bytes s.extent.bytes ∧
      Disjoint l.heap.extent.bytes s.extent.bytes) : LockTable.Apart l.lockTables := by
  constructor
  · intro t ht
    rcases List.mem_cons.mp ht with rfl | ht
    · exact hcell
    · rcases List.mem_cons.mp ht with rfl | ht
      · exact hheap
      · obtain ⟨s, hs, rfl⟩ := StackLocks.mem_tables_iff.mp ht
        exact hstack s hs
  · refine List.pairwise_cons.mpr ⟨fun t ht => ?_, List.pairwise_cons.mpr ⟨fun t ht => ?_, ?_⟩⟩
    · rcases List.mem_cons.mp ht with rfl | ht
      · exact hglobal
      · obtain ⟨s, hs, rfl⟩ := StackLocks.mem_tables_iff.mp ht
        exact (hdisjoint s hs).1
    · obtain ⟨s, hs, rfl⟩ := StackLocks.mem_tables_iff.mp ht
      exact (hdisjoint s hs).2
    · cases l.stack with
      | perCall s => exact List.pairwise_singleton _ _
      | shared => exact List.Pairwise.nil

theorem stack_observe_eq_search (stack : StackLocks) (lock : Word) :
    stack.observe lock = LockTable.search stack.tables lock := by
  cases stack with
  | perCall s =>
    have hread : s.observe lock = s.table.read lock := rfl
    simp only [StackLocks.observe, StackLocks.tables, LockTable.search, List.findSome?_cons,
      List.findSome?_nil, hread]
    cases s.table.read lock <;> rfl
  | shared => rfl

theorem cell?_eq_search (l : Lifetimes) (lock : Word) :
    l.cell? lock = LockTable.search l.lockTables lock := by
  have hheap : l.heap.observe lock = l.heap.table.read lock := rfl
  rw [cell?, hheap, stack_observe_eq_search]
  simp only [lockTables, LockTable.search, List.findSome?_cons, LockCell.read_table]
  split
  next => rfl
  next => cases l.heap.table.read lock <;> rfl

end Lifetimes

end PointerGuard
