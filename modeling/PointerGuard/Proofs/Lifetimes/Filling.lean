import PointerGuard.Proofs.Lifetimes.Occupancy

namespace PointerGuard

theorem FreeMap.Stocked.insert_of_room {m : FreeMap} {capacity count : Nat} {addr : Word}
    (h : m.Stocked capacity count) (key : Word) (ha : isMarker addr = false)
    (hroom : count < capacity) : ∃ m', m.insert key addr = .ok m' := by
  refine h.counted.insert_of_room key ha ?_
  rw [h.live, h.size]
  omega

namespace Lifetimes

variable {host : Host} {l : Lifetimes} {arena : Extent} {capacity count n : Nat} {ptr : Word}

theorem allocate_of_granted {i : Nat} {heap : LockArena} {m m' : FreeMap}
    (hp : isMarker ptr = false) (ha : l.heap.acquire = .ok (i, heap)) (hm : l.freeMap = some m)
    (hi : m.insert l.nextKey ptr = .ok m') :
    l.allocate ptr = (.ok ⟨l.nextKey, heap.addrOf i⟩,
      { l with
        nextKey := l.nextKey + 1
        heap := heap.assign i l.nextKey
        freeMap := some m' }) := by
  have hz : ptr ≠ 0 := (FreeMap.isMarker_eq_false_iff.mp hp).1
  rw [Lifetimes.allocate, if_neg hz]
  simp only [ha, hm, hi]

theorem Watched.faithful_of_allocations {rs : List Request}
    (ha : ∀ r ∈ rs, ∃ ptr, r = .allocate ptr) {w : Watched} :
    Runs.Always Watched.step Watched.Faithful w rs := by
  refine Runs.always_of_mem fun r hr w => ?_
  obtain ⟨ptr, rfl⟩ := ha r hr
  trivial

theorem Watched.mem_held_after_allocations {rs : List Request}
    (ha : ∀ r ∈ rs, ∃ ptr, r = .allocate ptr) {w : Watched} {h : Holding} (hh : h ∈ w.held) :
    h ∈ (w.after rs).held := by
  induction rs generalizing w with
  | nil => exact hh
  | cons r rs ih =>
    obtain ⟨ptr, rfl⟩ := ha r (List.mem_cons_self ..)
    refine ih (fun r hr => ha r (List.mem_cons_of_mem _ hr)) ?_
    show h ∈ note w.held (.allocate ptr) (w.lifetimes.serve (.allocate ptr)).1
    rcases (w.lifetimes.serve (.allocate ptr)).1 with v | (_ | lease)
    · exact hh
    · exact hh
    · exact List.mem_cons_of_mem _ hh

/-- Nothing was given back so far: the first `count` cells of the arena are taken, and the map has
a record for each of them. -/
structure Filled (l : Lifetimes) (arena : Extent) (capacity count : Nat) : Prop where
  extent : l.heap.extent = arena
  unreleased : l.heap.freeHead = linkEnd
  bump : l.heap.bump = count
  counter : l.nextKey = firstKey + .ofNat count
  stocked : ∃ m, l.freeMap = some m ∧ m.Stocked capacity count

theorem filled_create {lockEntries stackEntries : Nat} {policy : StackLockPolicy}
    (hc : Lifetimes.create host lockEntries policy stackEntries (some capacity) = .ok l) :
    l.Filled ⟨l.heap.base, 8, lockEntries⟩ capacity 0 := by
  obtain ⟨hkey, _, hheap, _, _, hmap⟩ := Lifetimes.create_eq_ok hc
  obtain ⟨hfresh, _⟩ := LockArena.create_eq_ok hheap
  refine ⟨by rw [hfresh]; rfl, by rw [hfresh], by rw [hfresh], by rw [hkey]; rfl, ?_⟩
  generalize l.freeMap = map at hmap
  cases hmap with
  | some hm =>
    obtain ⟨rfl, _⟩ := FreeMap.create_eq_ok hm
    exact ⟨_, rfl, FreeMap.counted_blank capacity, rfl, rfl⟩

namespace Filled

theorem counter_succ (h : l.Filled arena capacity count) :
    l.nextKey + 1 = firstKey + .ofNat (count + 1) := by
  rw [h.counter, UInt64.ofNat_add, ← UInt64.add_assoc]
  rfl

theorem acquire (h : l.Filled arena capacity count) (hcell : count < arena.len) :
    l.heap.acquire = .ok (count, { l.heap with bump := count + 1 }) := by
  have hlen : l.heap.cells.len = arena.len := congrArg Extent.len h.extent
  have hbump := h.bump
  rw [LockArena.acquire, if_neg (not_not.mpr h.unreleased), if_neg (by omega), hbump]

/-- An allocation takes the next cell, as long as there is one and the map has room. -/
theorem allocate (h : l.Filled arena capacity count) (hcell : count < arena.len)
    (hslot : count < capacity) (hp : isMarker ptr = false) :
    (l.serve (.allocate ptr)).1 = .ok (some ⟨firstKey + .ofNat count, arena.addrOf count⟩) ∧
      (l.step (.allocate ptr)).Filled arena capacity (count + 1) := by
  obtain ⟨m, hm, hstocked⟩ := h.stocked
  obtain ⟨m', hi⟩ := hstocked.insert_of_room l.nextKey hp hslot
  have hgranted := allocate_of_granted hp (h.acquire hcell) hm hi
  constructor
  · rw [serve, hgranted, ← h.counter, ← h.extent]
    rfl
  · rw [step_allocate, hgranted]
    exact ⟨h.extent, h.unreleased, rfl, h.counter_succ, m', rfl, hstocked.insert hi⟩

theorem after_replicate (h : l.Filled arena capacity count) (hcells : count + n ≤ arena.len)
    (hslots : count + n ≤ capacity) (hp : isMarker ptr = false) :
    (l.after (List.replicate n (.allocate ptr))).Filled arena capacity (count + n) := by
  induction n generalizing l count with
  | zero => exact h
  | succ n ih =>
    obtain ⟨_, hnext⟩ := h.allocate (by omega) (by omega) hp
    have hrest := ih hnext (by omega) (by omega)
    rw [Nat.add_right_comm, Nat.add_assoc] at hrest
    exact hrest

/-- An allocation that the map turns away gives its cell back, whose number heads the free list as
far as a link holds it. -/
theorem turnedAway (h : l.Filled arena capacity count) (hcell : count < arena.len) :
    (l.serve (.allocate tombstone)).1 = .error (.untrackableAddress tombstone) ∧
      (l.step (.allocate tombstone)).heap = { l.heap with bump := count + 1 }.release count ∧
      (l.step (.allocate tombstone)).nextKey = firstKey + .ofNat (count + 1) ∧
      (l.step (.allocate tombstone)).freeMap = l.freeMap := by
  obtain ⟨m, hm, hstocked⟩ := h.stocked
  have hi : m.insert l.nextKey tombstone = .error (.untrackableAddress tombstone) :=
    if_pos (by decide)
  have hallocate : l.allocate tombstone = (.error (.untrackableAddress tombstone),
      { l with
        nextKey := l.nextKey + 1
        heap := { l.heap with bump := count + 1 }.release count }) := by
    rw [Lifetimes.allocate, if_neg (by decide)]
    simp only [h.acquire hcell, hm, hi]
  rw [step_allocate, serve, hallocate]
  exact ⟨rfl, rfl, h.counter_succ, rfl⟩

/-- The number of cell 2^32 does not fit into a link: when the map turns an allocation away, the
next one gets the first cell instead, which has an owner. -/
theorem shares_first_cell (h : l.Filled arena capacity count) (hn : count = linkEnd + 1)
    (hcell : count < arena.len) (hslot : count < capacity) (hp : isMarker ptr = false) :
    let l' := (l.step (.allocate tombstone)).step (.allocate ptr)
    (∃ m, l'.freeMap = some m) ∧ l'.heap.extent = arena ∧ l'.heap.cells.get 0 ≠ firstKey := by
  obtain ⟨_, hheap, hkey, hmap⟩ := h.turnedAway hcell
  obtain ⟨m, hm, hstocked⟩ := h.stocked
  generalize l.step (.allocate tombstone) = back at hheap hkey hmap
  obtain ⟨m', hi⟩ := hstocked.insert_of_room back.nextKey hp hslot
  have hhead : back.heap.freeHead = 0 := by
    rw [hheap, hn]
    rfl
  have hacquire : back.heap.acquire
      = .ok (0, { back.heap with freeHead := back.heap.links.get 0 }) := by
    rw [LockArena.acquire, if_pos (by rw [hhead]; decide), hhead]
  have hextent : back.heap.extent = arena := by
    rw [hheap]
    exact h.extent
  rw [step_allocate, allocate_of_granted hp hacquire (hmap.trans hm) hi]
  refine ⟨⟨m', rfl⟩, hextent, ?_⟩
  rw [LockArena.assign, Table.get_set_self, hkey, hn]
  decide

theorem mem_held_first (h : l.Filled arena capacity 0) (hcell : 0 < arena.len)
    (hslot : 0 < capacity) (hp : isMarker ptr = false) {rs : List Request}
    (ha : ∀ r ∈ rs, ∃ ptr, r = .allocate ptr) :
    ⟨ptr, ⟨firstKey, arena.addrOf 0⟩⟩ ∈ (l.watched.after (.allocate ptr :: rs)).held := by
  have hgranted := (h.allocate hcell hslot hp).1
  refine Watched.mem_held_after_allocations (w := l.watched.step (.allocate ptr)) ha ?_
  show _ ∈ note [] (.allocate ptr) (l.serve (.allocate ptr)).1
  rw [hgranted]
  exact List.mem_cons_self

end Filled

end Lifetimes

end PointerGuard
