import PointerGuard.Proofs.Lifetimes.Holdings
import PointerGuard.Proofs.Machine.Leases

namespace PointerGuard

namespace LockArena

variable {a b : LockArena} {i n : Nat} {held : List Lease} {free : List Nat}

/-- The arena can give out `n` more cells, one after the other. -/
def Gives : LockArena → Nat → Prop
  | _, 0 => True
  | a, n + 1 => ∃ i b, a.acquire = .ok (i, b) ∧ b.Gives n

/-- The arenas give out the same cells. What the cells hold does not matter for that, and the links
do not either once the free list has ended. -/
structure Alike (a b : LockArena) : Prop where
  head : a.freeHead = b.freeHead
  bump : a.bump = b.bump
  len : a.cells.len = b.cells.len
  links : a.freeHead ≠ linkEnd → ∀ j, a.links.get j = b.links.get j

theorem Alike.symm (h : Alike a b) : Alike b a :=
  ⟨h.head.symm, h.bump.symm, h.len.symm, fun hf j => (h.links (h.head ▸ hf) j).symm⟩

theorem Alike.acquire (h : Alike a b) {a' : LockArena} (ha : a.acquire = .ok (i, a')) :
    ∃ b', b.acquire = .ok (i, b') ∧ Alike a' b' := by
  obtain ⟨hhead, hbump, hlen, hlinks⟩ := h
  rcases acquire_eq_ok ha with ⟨hf, rfl, rfl⟩ | ⟨hf, hb, rfl, rfl⟩
  · have hf' : b.freeHead ≠ linkEnd := hhead ▸ hf
    refine ⟨{ b with freeHead := b.links.get b.freeHead }, ?_, ?_, hbump, hlen, fun _ => hlinks hf⟩
    · rw [LockArena.acquire, if_pos hf', hhead]
    · show a.links.get a.freeHead = b.links.get b.freeHead
      rw [hlinks hf, hhead]
  · have hf' : ¬b.freeHead ≠ linkEnd := not_not.mpr (hhead ▸ hf)
    have hb' : b.bump ≠ b.cells.len := hbump ▸ hlen ▸ hb
    refine ⟨{ b with bump := b.bump + 1 }, ?_, hhead, ?_, hlen, hlinks⟩
    · rw [LockArena.acquire, if_neg hf', if_neg hb', hbump]
    · show a.bump + 1 = b.bump + 1
      rw [hbump]

theorem Alike.gives (h : Alike a b) (hg : a.Gives n) : b.Gives n := by
  induction n generalizing a b with
  | zero => trivial
  | succ n ih =>
    obtain ⟨i, a', ha, hrest⟩ := hg
    obtain ⟨b', hb, halike⟩ := h.acquire ha
    exact ⟨i, b', hb, ih halike hrest⟩

theorem Alike.gives_iff (h : Alike a b) : a.Gives n ↔ b.Gives n :=
  ⟨h.gives, h.symm.gives⟩

theorem alike_assign (a : LockArena) (i : Nat) (key : Word) : Alike a (a.assign i key) :=
  ⟨rfl, rfl, rfl, fun _ _ => rfl⟩

theorem gives_succ_iff (h : a.acquire = .ok (i, b)) : a.Gives (n + 1) ↔ b.Gives n := by
  constructor
  · rintro ⟨j, b', hb, hrest⟩
    cases h.symm.trans hb
    exact hrest
  · exact fun hrest => ⟨i, b, h, hrest⟩

/-- A cell that is given back at once is given out next, and then the arena goes on as it would have
without that. -/
theorem WellFormed.acquire_release (h : a.WellFormed) (ha : a.acquire = .ok (i, b)) :
    ∃ c, (b.release i).acquire = .ok (i, c) ∧ Alike b c := by
  have hlt : i < linkEnd := Nat.lt_of_lt_of_le (h.lt_of_acquire ha) h.small
  have hne : i ≠ linkEnd := Nat.ne_of_lt hlt
  have hhead := freeHead_release b hlt
  refine ⟨{ b.release i with freeHead := (b.links.set i b.freeHead).get i }, ?_, ?_, rfl, rfl, ?_⟩
  · rw [LockArena.acquire, hhead, if_pos hne]
    rfl
  · show b.freeHead = (b.links.set i b.freeHead).get i
    rw [Table.get_set_self]
  · intro hf j
    show b.links.get j = (b.links.set i b.freeHead).get j
    rw [Table.get_set]
    split
    next hj =>
      -- The free list went on, so the cell was its head, whose link is the head that is left.
      rcases acquire_eq_ok ha with ⟨_, rfl, rfl⟩ | ⟨hend, _, _, rfl⟩
      · rw [hj]
      · exact absurd hend hf
    next => rfl

theorem WellFormed.gives_release (h : a.WellFormed) (ha : a.acquire = .ok (i, b)) :
    (b.release i).Gives n ↔ a.Gives n := by
  cases n with
  | zero => exact .rfl
  | succ n =>
    obtain ⟨c, hc, halike⟩ := h.acquire_release ha
    rw [gives_succ_iff hc, gives_succ_iff ha, halike.gives_iff]

/-- As long as no cell is on the free list that a lease has, a cell that is given out holds zero. -/
theorem Divided.get_of_acquire (h : a.Divided held free []) (ha : a.acquire = .ok (i, b)) :
    a.cells.get i = 0 := by
  apply h.idle
  rcases acquire_eq_ok ha with ⟨hf, rfl, _⟩ | ⟨_, _, rfl, _⟩
  · obtain ⟨is, rfl, _⟩ := h.chain.of_ne hf
    exact Or.inl (List.mem_cons_self ..)
  · exact Or.inr (Nat.le_refl _)

end LockArena

namespace Lifetimes

variable {l : Lifetimes} {ptr : Word} {lease : Lease} {v : Violation} {n : Nat}

theorem wellFormed_after (h : l.WellFormed) (rs : List Request) : (l.after rs).WellFormed :=
  Runs.foldl_invariant (I := WellFormed) (fun _ r h => h.step r) rs h

theorem change_of_answer {r : Except Violation Lease} (h : (l.allocate ptr).1 = r) :
    Change l (.allocate ptr) (r.map some) (l.allocate ptr).2 := by
  have hc := change_allocate l ptr
  rw [serve] at hc
  cases ha : l.allocate ptr with
  | mk r' l' =>
    rw [ha] at h hc
    cases h
    cases r' <;> exact hc

theorem change_of_granted (h : (l.allocate ptr).1 = .ok lease) :
    Change l (.allocate ptr) (.ok (some lease)) (l.allocate ptr).2 :=
  change_of_answer h

theorem change_of_refused (h : (l.allocate ptr).1 = .error v) :
    Change l (.allocate ptr) (.error v) (l.allocate ptr).2 :=
  change_of_answer h

/-- A lease passes its check once it is issued. -/
theorem WellFormed.check_of_allocate (h : l.WellFormed) (ha : (l.allocate ptr).1 = .ok lease) :
    (l.allocate ptr).2.check lease.key lease.lock = .ok () := by
  have hc := change_of_granted ha
  have hplaced := (h.change hc).placed
  generalize (l.allocate ptr).2 = l' at hc hplaced ⊢
  cases hc with
  | @granted _ i heap _ _ hacquire _ =>
    obtain ⟨hbase, hcells⟩ := LockArena.acquire_keeps hacquire
    have hindex : l.heap.indexOf (heap.addrOf i) = some i := by
      rw [LockArena.acquire_addrOf hacquire]
      exact Extent.indexOf_addrOf h.heap.fits (h.heap.lt_of_acquire hacquire)
    -- The cell that was acquired holds the key that was drawn for it.
    have hobserve : (heap.assign i l.nextKey).observe (heap.addrOf i) = some l.nextKey := by
      have hset := LockArena.observe_of_set (b := heap.assign i l.nextKey) hbase
        (by rw [LockArena.assign, hcells]) (heap.addrOf i)
      rwa [if_pos hindex] at hset
    exact check_eq_ok_iff.mpr (cell?_of_heap hplaced hobserve)

theorem tracked_of_granted (h : (l.allocate ptr).1 = .ok lease) :
    (l.allocate ptr).2.tracked = l.tracked.map (· + 1) := by
  have hc := change_of_granted h
  generalize (l.allocate ptr).2 = l' at hc ⊢
  cases hc with
  | granted _ _ hmap =>
    unfold tracked
    generalize l.freeMap = o at hmap ⊢
    cases hmap with
    | none => rfl
    | some hi =>
      obtain ⟨_, _, _, _, rfl⟩ := FreeMap.insert_eq_ok hi
      rfl

theorem tracked_of_refused (h : (l.allocate ptr).1 = .error v) :
    (l.allocate ptr).2.tracked = l.tracked := by
  have hc := change_of_refused h
  generalize (l.allocate ptr).2 = l' at hc ⊢
  cases hc with
  | refused => rfl
  | turnedAway => rfl

/-- A refused allocation writes zero to one cell at most. -/
theorem cell?_of_refused (hp : l.Placed) (h : (l.allocate ptr).1 = .error v) :
    ∃ spot, ∀ lock, (l.allocate ptr).2.cell? lock = l.cell? lock ∨
      lock = spot ∧ (l.allocate ptr).2.cell? lock = some 0 := by
  have hc := change_of_refused h
  generalize (l.allocate ptr).2 = l' at hc ⊢
  cases hc with
  | refused => exact ⟨0, fun _ => Or.inl rfl⟩
  | turnedAway _ ha _ _ =>
    obtain ⟨hbase, hcells⟩ := LockArena.acquire_keeps ha
    exact ⟨_, cell?_of_set hp rfl hbase (by rw [LockArena.release, hcells]) rfl⟩

/-- While the free list has no cell of a live lease, a refused allocation leaves all cells alone. -/
theorem Watched.Settled.cell?_of_refused {w : Watched} (hw : w.Settled)
    (hwell : w.lifetimes.WellFormed) (h : (w.lifetimes.allocate ptr).1 = .error v) (lock : Word) :
    (w.lifetimes.allocate ptr).2.cell? lock = w.lifetimes.cell? lock := by
  obtain ⟨free, hd⟩ := hw.divided
  have hc := change_of_refused h
  generalize w.lifetimes = l at hd hwell hc ⊢
  generalize (l.allocate ptr).2 = l' at hc ⊢
  cases hc with
  | refused => rfl
  | @turnedAway _ i heap _ _ _ ha _ _ =>
    obtain ⟨hbase, hcells⟩ := LockArena.acquire_keeps ha
    let l' : Lifetimes := { l with nextKey := l.nextKey + 1, heap := heap.release i }
    have hglobal : l'.global = l.global := rfl
    have hset : l'.heap.cells = l.heap.cells.set i 0 := by
      show heap.cells.set i 0 = _
      rw [hcells]
    have hcell : l'.cell? lock = l.cell? lock ∨
        lock = l.heap.addrOf i ∧ l'.cell? lock = some 0 :=
      cell?_of_set hwell.placed hglobal hbase hset rfl lock
    rcases hcell with hsame | ⟨rfl, hzero⟩
    · exact hsame
    · have hindex : l.heap.indexOf (l.heap.addrOf i) = some i :=
        Extent.indexOf_addrOf hd.fits (hwell.heap.lt_of_acquire ha)
      have hobserve : l.heap.observe (l.heap.addrOf i) = some 0 := by
        rw [LockArena.observe, hindex, Option.map_some, hd.get_of_acquire ha]
      exact hzero.trans (cell?_of_heap hwell.placed hobserve).symm

/-- There are cells and records for `n` more heap objects. -/
structure Room (l : Lifetimes) (n : Nat) : Prop where
  cells : l.heap.Gives n
  records : ∀ m, l.freeMap = some m → m.live + n ≤ m.capacity

theorem room_zero (h : l.WellFormed) : l.Room 0 :=
  ⟨trivial, fun m hm => (h.map m hm).counted.live_le⟩

/-- An issued lease takes one cell and one record. -/
theorem room_of_granted (ha : (l.allocate ptr).1 = .ok lease) :
    (l.allocate ptr).2.Room n ↔ l.Room (n + 1) := by
  have hc := change_of_granted ha
  generalize (l.allocate ptr).2 = l' at hc ⊢
  cases hc with
  | @granted _ i heap map _ hacquire hmap =>
    have hcells : (heap.assign i l.nextKey).Gives n ↔ l.heap.Gives (n + 1) := by
      rw [LockArena.gives_succ_iff hacquire, (LockArena.alike_assign heap i l.nextKey).gives_iff]
    have hrecords : (∀ m, map = some m → m.live + n ≤ m.capacity) ↔
        ∀ m, l.freeMap = some m → m.live + (n + 1) ≤ m.capacity := by
      generalize l.freeMap = o at hmap
      cases hmap with
      | none => simp
      | some hi =>
        obtain ⟨_, _, _, _, rfl⟩ := FreeMap.insert_eq_ok hi
        simp only [Option.some.injEq, forall_eq']
        rw [FreeMap.capacity, FreeMap.capacity, Table.len_set]
        omega
    exact ⟨fun h => ⟨hcells.mp h.cells, hrecords.mp h.records⟩,
      fun h => ⟨hcells.mpr h.cells, hrecords.mpr h.records⟩⟩

/-- A refused allocation takes none of the room. -/
theorem room_of_refused (h : l.WellFormed) (ha : (l.allocate ptr).1 = .error v) :
    (l.allocate ptr).2.Room n ↔ l.Room n := by
  have hc := change_of_refused ha
  generalize (l.allocate ptr).2 = l' at hc ⊢
  cases hc with
  | refused => exact .rfl
  | turnedAway _ hacquire _ _ =>
    have hcells := h.heap.gives_release (n := n) hacquire
    exact ⟨fun hr => ⟨hcells.mp hr.cells, hr.records⟩, fun hr => ⟨hcells.mpr hr.cells, hr.records⟩⟩

/-- Where there is room, an address that marks nothing is registered. -/
theorem lease_of_room (h : l.WellFormed) (hp : isMarker ptr = false) (hr : l.Room (n + 1)) :
    ∃ lease, (l.allocate ptr).1 = .ok lease := by
  obtain ⟨⟨i, heap, hacquire, _⟩, hrecords⟩ := hr
  have hz : ptr ≠ 0 := (FreeMap.isMarker_eq_false_iff.mp hp).1
  unfold allocate
  rw [if_neg hz, hacquire]
  cases hm : l.freeMap with
  | none => exact ⟨_, rfl⟩
  | some m =>
    have hroom : m.live ≠ m.capacity := by
      have hle := hrecords m hm
      omega
    obtain ⟨m', hm'⟩ := (h.map m hm).counted.insert_of_room l.nextKey hp hroom
    simp only [hm']
    exact ⟨_, rfl⟩

end Lifetimes

end PointerGuard
