import PointerGuard.Proofs.Lifetimes.Filling

namespace PointerGuard

variable {host : Host}

namespace FreeMap

variable {m : FreeMap} {key old addr : Word} {rest : List (Word × Word)}

theorem isMarker_iff {w : Word} : isMarker w = true ↔ w = 0 ∨ w = tombstone := by
  simp [isMarker, emptySlot]

theorem insert_of_marker (ha : isMarker addr = true) :
    m.insert key addr = .error (.untrackableAddress addr) := by
  rw [insert, if_pos ha]

/-- A record that is taken out leaves room for one of any address under the same key. -/
theorem Carries.exchange (h : m.Carries ((key, old) :: rest)) :
    ∃ removed, m.remove key old = .ok removed ∧ ∀ addr, isMarker addr = false →
      ∃ m', removed.insert key addr = .ok m' ∧ m'.Carries ((key, addr) :: rest) := by
  obtain ⟨removed, hr, hrest⟩ := h.remove
  refine ⟨removed, hr, fun addr ha => ?_⟩
  -- the slot that the record leaves may lie behind the one that the next record takes
  obtain ⟨m', hi⟩ := insert_of_remove hr key ha
  exact ⟨m', hi, hrest.insert hi⟩

end FreeMap

namespace Lifetimes

variable {l : Lifetimes} {lockEntries stackEntries : Nat} {policy : StackLockPolicy} {m : FreeMap}
  {arena : Extent} {capacity count n : Nat} {ptr : Word}

/-- Where a live allocation stands after it was moved from `old` to `new`. -/
def placeAfter (old new : Word) : Word := if isMarker new then old else new

/-- How a relocation to `new` is answered. -/
def relocationAnswer (new : Word) : Except Violation Unit :=
  if isMarker new then .error (.untrackableAddress new) else .ok ()

theorem relocationAnswer_eq_error_iff {new : Word} {v : Violation} :
    relocationAnswer new = .error v ↔ isMarker new = true ∧ v = .untrackableAddress new := by
  unfold relocationAnswer
  cases isMarker new <;> simp [eq_comm]

theorem relocationAnswer_eq_ok_iff {new : Word} :
    relocationAnswer new = .ok () ↔ isMarker new = false := by
  unfold relocationAnswer
  cases isMarker new <;> simp

/-- A record whose new address is refused goes back into the map, and the refusal is answered. -/
theorem relocate_of_refused {old new key : Word} {removed back : FreeMap} {v : Violation}
    (hm : l.freeMap = some m) (hr : m.remove key old = .ok removed)
    (hi : removed.insert key new = .error v) (hb : removed.insert key old = .ok back) :
    l.relocate old new key = (.error v, { l with freeMap := some back }) := by
  unfold relocate
  simp only [hm, hr, hi, hb]

theorem relocate_of_carries {old key : Word} {rest : List (Word × Word)}
    (hm : l.freeMap = some m) (h : m.Carries ((key, old) :: rest)) (new : Word) :
    ∃ m', l.relocate old new key = (relocationAnswer new, { l with freeMap := some m' }) ∧
      m'.Carries ((key, placeAfter old new) :: rest) := by
  obtain ⟨removed, hr, hput⟩ := h.exchange
  unfold relocationAnswer placeAfter
  by_cases hn : isMarker new = true
  · obtain ⟨m', hb, hcarries⟩ := hput old (FreeMap.isMarker_of_remove hr)
    refine ⟨m', ?_, by rwa [if_pos hn]⟩
    rw [if_pos hn]
    exact relocate_of_refused hm hr (FreeMap.insert_of_marker hn) hb
  · obtain ⟨m', hi, hcarries⟩ := hput new (by simpa using hn)
    refine ⟨m', ?_, by rwa [if_neg hn]⟩
    rw [if_neg hn, relocate]
    simp only [hm, hr, hi]

namespace Kept

variable {w : Watched} {h other : Holding}

/-- The free map records a live allocation, and besides it the others. -/
theorem carries_cons (hk : Kept w) (hm : w.lifetimes.freeMap = some m) (hh : h ∈ w.held) :
    m.Carries ((h.lease.key, h.addr) :: records (w.held.erase h)) :=
  (hk.carries m hm).perm (records_perm (List.perm_cons_erase hh))

/-- A live allocation can be released wherever the free map records it. -/
theorem release_of_carries (hk : Kept w) (hh : h ∈ w.held) {rs : List (Word × Word)}
    (hm : m.Carries rs) {ptr : Word} (hr : (h.lease.key, ptr) ∈ rs) :
    ∃ l', ({ w.lifetimes with freeMap := some m } : Lifetimes).deallocate ptr h.lease.key
      h.lease.lock = .ok l' := by
  obtain ⟨free, hd⟩ := hk.divided
  have hcell := hd.live h.lease (List.mem_map_of_mem hh)
  refine deallocate_eq_ok_iff.mpr ⟨hcell, ?_⟩
  rintro _ ⟨⟩
  exact hm.contains hr

end Kept

theorem heap_relocate (l : Lifetimes) (old new key : Word) :
    (l.relocate old new key).2.heap = l.heap := by
  unfold relocate
  repeat' split
  all_goals rfl

theorem relocate_to_marker (hm : l.freeMap = some m) {new : Word} (hn : isMarker new = true)
    (old key : Word) : ∃ v, (l.relocate old new key).1 = .error v := by
  unfold relocate
  simp only [hm, FreeMap.insert_of_marker hn]
  repeat' split
  all_goals exact ⟨_, rfl⟩

/-- A lease with another key than its cell holds cannot be released, wherever its object is moved.
-/
theorem deallocate_after_relocation {i : Nat} {key lock : Word} (hi : l.heap.indexOf lock = some i)
    (hkey : l.heap.cells.get i ≠ key) (old new : Word) :
    (l.relocate old new key).2.deallocate ptr key lock = .error (.invalidFree ptr key) := by
  rw [← heap_relocate l old new key] at hi hkey
  unfold deallocate
  simp only [hi, if_pos hkey]

/-- The number of cell 2^32 heads the free list as zero: two live allocations get the first cell,
and the older one can neither be moved to zero nor released any more. -/
theorem Filled.strands_first_owner (h : l.Filled arena capacity 0) (hfits : arena.Fits)
    (hn : n = linkEnd) (hcell : n + 1 < arena.len) (hslot : n + 1 < capacity)
    (hp : isMarker ptr = false) :
    let rs := List.replicate (n + 1) (.allocate ptr) ++ [.allocate tombstone, .allocate ptr]
    let w := l.watched.after rs
    Runs.Always Watched.step Watched.Faithful l.watched rs ∧
      ⟨ptr, ⟨firstKey, arena.addrOf 0⟩⟩ ∈ w.held ∧
      (∃ v, (w.lifetimes.relocate ptr 0 firstKey).1 = .error v) ∧
      (w.lifetimes.relocate ptr 0 firstKey).2.deallocate ptr firstKey (arena.addrOf 0)
        = .error (.invalidFree ptr firstKey) := by
  intro rs w
  -- `n` stays a variable, so that no step unrolls a run of 2^32 requests
  have hallocations : ∀ r ∈ rs, ∃ ptr, r = .allocate ptr := by
    intro r hr
    rcases List.mem_append.mp hr with hr | hr
    · exact ⟨ptr, List.eq_of_mem_replicate hr⟩
    · simp only [List.mem_cons, List.not_mem_nil, or_false] at hr
      rcases hr with rfl | rfl <;> exact ⟨_, rfl⟩
  have hheld : ⟨ptr, ⟨firstKey, arena.addrOf 0⟩⟩ ∈ w.held :=
    h.mem_held_first (by omega) (by omega) hp fun r hr => hallocations r (List.mem_cons_of_mem _ hr)
  have hfilled := h.after_replicate (n := n + 1) (by omega) (by omega) hp
  rw [Nat.zero_add] at hfilled
  obtain ⟨⟨m, hm⟩, hextent, hkey⟩ := hfilled.shares_first_cell (by omega) hcell hslot hp
  have hafter : w.lifetimes = ((l.after (List.replicate (n + 1) (.allocate ptr))).step
      (.allocate tombstone)).step (.allocate ptr) := by
    rw [Watched.after_lifetimes, after_append]
    rfl
  rw [← hafter] at hm hextent hkey
  have hi : w.lifetimes.heap.indexOf (arena.addrOf 0) = some 0 := by
    rw [LockArena.indexOf, hextent]
    exact Extent.indexOf_addrOf hfits (by omega)
  exact ⟨Watched.faithful_of_allocations hallocations, hheld,
    relocate_to_marker hm rfl ptr firstKey, deallocate_after_relocation hi hkey ptr 0⟩

/-- A live allocation can be moved to every address but the two markers, and wherever it is then, it
and every other one can be released. -/
theorem relocation_moves_one_record_or_none {n : Nat} (hsmall : lockEntries ≤ linkEnd)
    (hc : Lifetimes.create host lockEntries policy stackEntries (some n) = .ok l) {rs : List Request}
    (hr : Runs.Always Watched.step Watched.Faithful l.watched rs) {h : Holding}
    (hh : h ∈ (l.watched.after rs).held) (new : Word) :
    let w := l.watched.after rs
    let answer := (w.lifetimes.relocate h.addr new h.lease.key).1
    let after := (w.lifetimes.relocate h.addr new h.lease.key).2
    (∀ v, answer = .error v ↔
        (new = 0 ∨ new = tombstone) ∧ v = .untrackableAddress new) ∧
      (∀ m removed v, w.lifetimes.freeMap = some m →
        m.remove h.lease.key h.addr = .ok removed → removed.insert h.lease.key new = .error v →
        ∃ m', removed.insert h.lease.key h.addr = .ok m' ∧ after.freeMap = some m') ∧
      (∀ v, answer = .error v → ∀ other ∈ w.held, ∃ l',
        after.deallocate other.addr other.lease.key other.lease.lock = .ok l') ∧
      (answer = .ok () →
        (∃ l', after.deallocate new h.lease.key h.lease.lock = .ok l') ∧
          ∀ other ∈ w.held, other ≠ h → ∃ l',
            after.deallocate other.addr other.lease.key other.lease.lock = .ok l') ∧
      after.tracked = w.lifetimes.tracked ∧
      ∀ lock, after.cell? lock = w.lifetimes.cell? lock := by
  intro w answer after
  have hk : Kept w := kept_after hsmall hc hr
  obtain ⟨m, hm⟩ : ∃ m, w.lifetimes.freeMap = some m := watched_freeMap hc rs
  obtain ⟨m', hmoved, hcarries⟩ := relocate_of_carries hm (hk.carries_cons hm hh) new
  have hanswer : answer = relocationAnswer new := congrArg Prod.fst hmoved
  have hafter : after = { w.lifetimes with freeMap := some m' } := congrArg Prod.snd hmoved
  have hself :
      ∃ l', after.deallocate (placeAfter h.addr new) h.lease.key h.lease.lock = .ok l' := by
    rw [hafter]
    exact hk.release_of_carries hh hcarries (List.mem_cons_self ..)
  have hothers : ∀ other ∈ w.held, other ≠ h →
      ∃ l', after.deallocate other.addr other.lease.key other.lease.lock = .ok l' := by
    intro other ho hne
    have hmem : (other.lease.key, other.addr) ∈ records (w.held.erase h) :=
      List.mem_map.mpr ⟨other, (List.mem_erase_of_ne hne).mpr ho, rfl⟩
    rw [hafter]
    exact hk.release_of_carries ho hcarries (List.mem_cons_of_mem _ hmem)
  refine ⟨fun v => ?error, ?restored, ?failed, ?succeeded, ?tracked, fun lock => ?cells⟩
  case error => rw [hanswer, relocationAnswer_eq_error_iff, FreeMap.isMarker_iff]
  case restored =>
    intro map removed v hmap hremove hinsert
    obtain ⟨back, hb⟩ := FreeMap.insert_of_remove hremove h.lease.key
      (FreeMap.isMarker_of_remove hremove)
    have hback : after = { w.lifetimes with freeMap := some back } :=
      congrArg Prod.snd (relocate_of_refused hmap hremove hinsert hb)
    exact ⟨back, hb, by rw [hback]⟩
  case failed =>
    intro v hv other ho
    have hmarker := (relocationAnswer_eq_error_iff.mp (hanswer.symm.trans hv)).1
    by_cases heq : other = h
    · rw [placeAfter, if_pos hmarker] at hself
      rwa [heq]
    · exact hothers other ho heq
  case succeeded =>
    intro hv
    have hmarker : isMarker new = false := relocationAnswer_eq_ok_iff.mp (hanswer.symm.trans hv)
    rw [placeAfter, if_neg (by simp [hmarker])] at hself
    exact ⟨hself, hothers⟩
  case tracked =>
    have hlive : m'.live = m.live := by
      rw [hcarries.live, (hk.carries_cons hm hh).live, List.length_cons, List.length_cons]
    rw [hafter, tracked, tracked, hm, Option.map_some, Option.map_some, hlive]
  case cells => rw [hafter, cell?, cell?]

/-- The map has three slots. The record that is moved stands behind the slot where its key begins,
which holds a tombstone by now, and goes back to that slot. -/
theorem relocation_moves_one_record_or_none_of_earlier_slot :
    ∃ l, Lifetimes.create .standard 8 .shared 4 (some 3) = .ok l ∧ 8 ≤ linkEnd ∧
      let rs := [.allocate 0x1000, .allocate 0x2000, .allocate 0x3000,
        .deallocate 0x2000 3 (heapLocksAddr + 8), .allocate 0x4000,
        .deallocate 0x1000 2 heapLocksAddr]
      Runs.Always Watched.step Watched.Faithful l.watched rs ∧
      ⟨0x4000, ⟨5, heapLocksAddr + 8⟩⟩ ∈ (l.watched.after rs).held ∧
      ⟨0x3000, ⟨4, heapLocksAddr + 16⟩⟩ ∈ (l.watched.after rs).held ∧
      ∃ l', ((l.watched.after rs).lifetimes.relocate 0x4000 tombstone 5).2.deallocate 0x3000 4
        (heapLocksAddr + 16) = .ok l' := by
  obtain ⟨l, hc, hr, hmoved, hother⟩ : ∃ l, Lifetimes.create .standard 8 .shared 4 (some 3) = .ok l ∧
      let rs := [.allocate 0x1000, .allocate 0x2000, .allocate 0x3000,
        .deallocate 0x2000 3 (heapLocksAddr + 8), .allocate 0x4000,
        .deallocate 0x1000 2 heapLocksAddr]
      Runs.Always Watched.step Watched.Faithful l.watched rs ∧
      ⟨0x4000, ⟨5, heapLocksAddr + 8⟩⟩ ∈ (l.watched.after rs).held ∧
      ⟨0x3000, ⟨4, heapLocksAddr + 16⟩⟩ ∈ (l.watched.after rs).held :=
    ⟨_, rfl, by decide, by decide, by decide⟩
  obtain ⟨hfails, _, hreleases, _⟩ :=
    relocation_moves_one_record_or_none (by decide) hc hr hmoved tombstone
  have hrefused := (hfails _).mpr ⟨Or.inr rfl, rfl⟩
  have hreleased := hreleases _ hrefused _ hother
  exact ⟨l, hc, by decide, hr, hmoved, hother, hreleased⟩

/-- In an arena of 2^32 + 1 cells, a live allocation that is not moved cannot be released either. -/
theorem relocation_strands_owner_of_shared_cell :
    ∃ l, Lifetimes.create .standard (linkEnd + 2) .shared 4 (some (linkEnd + 2)) = .ok l ∧
      let rs := List.replicate (linkEnd + 1) (.allocate 0x1000) ++
        [.allocate tombstone, .allocate 0x1000]
      let w := l.watched.after rs
      Runs.Always Watched.step Watched.Faithful l.watched rs ∧
        ⟨0x1000, ⟨firstKey, heapLocksAddr⟩⟩ ∈ w.held ∧
        (∃ v, (w.lifetimes.relocate 0x1000 0 firstKey).1 = .error v) ∧
        (w.lifetimes.relocate 0x1000 0 firstKey).2.deallocate 0x1000 firstKey heapLocksAddr
          = .error (.invalidFree 0x1000 firstKey) := by
  obtain ⟨l, hc, hbase⟩ : ∃ l,
      Lifetimes.create .standard (linkEnd + 2) .shared 4 (some (linkEnd + 2)) = .ok l ∧
        l.heap.base = heapLocksAddr := ⟨_, rfl, rfl⟩
  have hempty := filled_create hc
  have hfits := (placed_create hc).heap_fits
  rw [hempty.extent, hbase] at hfits
  rw [hbase] at hempty
  have hlast := Nat.lt_succ_self (linkEnd + 1)
  exact ⟨l, hc, hempty.strands_first_owner hfits rfl hlast hlast rfl⟩

end Lifetimes

end PointerGuard
