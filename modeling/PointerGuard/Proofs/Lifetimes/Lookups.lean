import PointerGuard.Proofs.Lifetimes.StackOrder

namespace PointerGuard.Lifetimes

variable {l : Lifetimes} {t : LockTable} {key lock : Word} {i : Nat}

theorem observe_of_indexOf (h : LockTable.Apart l.lockTables) (ht : t ∈ l.lockTables)
    (hi : t.extent.indexOf lock = some i) : l.observe key lock = .ok (t.held i) := by
  rw [observe, cell?_eq_search, h.search_eq ht hi]

theorem observe_of_not_hasCell (h : LockTable.Apart l.lockTables)
    (hno : ∀ t ∈ l.lockTables, ¬t.extent.HasCell lock) :
    l.observe key lock = .error (.unknownLock key lock) := by
  rw [observe, cell?_eq_search, h.search_eq_none hno]

/-- A cell has one address and an address at most one cell, within a table and among the tables of
lock cells. -/
theorem cells_and_addresses_determine_each_other :
    (∀ (base : Word) (size : CellWidth) (len : Nat), base.toNat + len * size.bytes ≤ 2 ^ 64 →
      let x : Extent := ⟨base, size.bytes, len⟩
      (∀ i < len, (x.addrOf i).toNat = base.toNat + i * size.bytes) ∧
      (∀ a i, x.indexOf a = some i ↔ i < len ∧ x.addrOf i = a) ∧
      (∀ a, x.indexOf a = none ↔ a < base ∨ ¬size.bytes ∣ a.toNat - base.toNat ∨
        base.toNat + len * size.bytes ≤ a.toNat) ∧
      ∀ i < len, ∀ j < len, x.addrOf i = x.addrOf j → i = j) ∧
    (∀ tables : List LockTable, LockTable.Apart tables → ∀ lock m n
      (hm : m < tables.length) (hn : n < tables.length),
      tables[m].extent.HasCell lock → tables[n].extent.HasCell lock → m = n) ∧
    (∀ l : Lifetimes, LockTable.Apart l.lockTables → ∀ key lock,
      (∀ t ∈ l.lockTables, ∀ i, t.extent.indexOf lock = some i →
        l.observe key lock = .ok (t.held i)) ∧
      ((∀ t ∈ l.lockTables, ¬t.extent.HasCell lock) →
        l.observe key lock = .error (.unknownLock key lock))) ∧
    ∀ host lockEntries policy stackEntries freeMapEntries (l : Lifetimes),
      Lifetimes.create host lockEntries policy stackEntries freeMapEntries = .ok l →
      ∀ rs, LockTable.Apart (l.after rs).lockTables := by
  refine ⟨fun base size len hend => ?_, fun tables h _ _ _ hm hn => h.unique hm hn,
    fun l h key lock => ⟨fun t ht i hi => observe_of_indexOf h ht hi, observe_of_not_hasCell h⟩,
    fun _ _ _ _ _ l hc rs => (placed_after (placed_create hc) rs).apart⟩
  intro x
  have hfits : x.Fits := ⟨size.bytes_pos, hend⟩
  exact ⟨fun i hi => Extent.toNat_addrOf hfits hi, fun a i => Extent.indexOf_eq_some_iff hfits,
    fun a => Extent.indexOf_eq_none_iff hfits,
    fun i hi j hj => Extent.addrOf_injective hfits hi hj⟩

/-- A table that ends with the last word, and three tables without a gap between them, the heap
arena below the global cell and the stack arena above it. -/
theorem cells_and_addresses_determine_each_other_without_gaps :
    let x : Extent := ⟨0xfffffffffffffff0, 8, 2⟩
    let l : Lifetimes :=
      { global := { addr := 0x600000000000, holds := globalKey }
        heap := { base := 0x5ffffffffff0, cells := ({ len := 2 } : Table Word).set 1 3
                  links := { len := 2 }, bump := 2 }
        stack := .perCall { base := 0x600000000008, cells := ({ len := 2 } : Table Word).set 0 2
                            top := 1 }
        freeMap := none }
    x.base.toNat + 2 * CellWidth.eight.bytes ≤ 2 ^ 64 ∧ x.indexOf 0xfffffffffffffff8 = some 1 ∧
      x.indexOf 0xfffffffffffffffc = none ∧ x.indexOf 0xffffffffffffffe8 = none ∧
    LockTable.Apart l.lockTables ∧ l.observe 3 0x5ffffffffff8 = .ok 3 ∧
      l.observe 1 0x600000000000 = .ok 1 ∧ l.observe 2 0x600000000008 = .ok 2 ∧
      l.observe 2 0x600000000018 = .error (.unknownLock 2 0x600000000018) := by
  intro x l
  obtain ⟨hcells, _, hlocks, _⟩ := cells_and_addresses_determine_each_other
  have hend : x.base.toNat + 2 * CellWidth.eight.bytes ≤ 2 ^ 64 := by decide
  obtain ⟨_, hsome, hnone, _⟩ := hcells x.base .eight 2 hend
  have hapart : LockTable.Apart l.lockTables := by
    refine apart_of_disjoint (by constructor <;> decide) (by constructor <;> decide) ?_ ?_ ?_
    · rintro _ ⟨⟩
      constructor <;> decide
    · exact (Extent.disjoint_of_le (by decide)).symm
    · rintro _ ⟨⟩
      exact ⟨Extent.disjoint_of_le (by decide), Extent.disjoint_of_le (by decide)⟩
  refine ⟨hend, (hsome _ _).mpr (by decide), (hnone _).mpr (by decide), (hnone _).mpr (by decide),
    hapart, ?_, ?_, ?_, ?_⟩
  · exact (hlocks l hapart 3 0x5ffffffffff8).1 l.heap.table l.heap_mem_lockTables 1 (by decide)
  · exact (hlocks l hapart 1 0x600000000000).1 _ l.global_mem_lockTables 0 (by decide)
  · exact (hlocks l hapart 2 0x600000000008).1 _ (stack_mem_lockTables rfl) 0 (by decide)
  · exact (hlocks l hapart 2 0x600000000018).2 (by decide)

end PointerGuard.Lifetimes
