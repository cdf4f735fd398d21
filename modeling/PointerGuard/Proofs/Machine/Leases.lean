import PointerGuard.Proofs.FreeMap.Occupancy
import PointerGuard.Proofs.Lifetimes.Cells
import PointerGuard.Proofs.Machine.Traps

namespace PointerGuard

variable {host : Host}

open Checked

namespace FreeMap

variable {m m' : FreeMap} {key addr : Word}

/-- The `i`-th slot of a key's probe sequence. -/
def probeOrTrap (m : FreeMap) (key : Word) (i : Nat) : Checked Nat := do
  let start ← remOrTrap key.toNat m.capacity
  let sum ← addOrTrap start i
  remOrTrap sum m.capacity

def searchOrTrap (m : FreeMap) (stop : Word → Bool) (key : Word) (i : Nat) :
    Nat → Checked (Option Nat)
  | 0 => .ok none
  | n + 1 => do
    let pos ← m.probeOrTrap key i
    let tag ← m.slots.getOrTrap pos
    if stop tag then .ok (some pos) else m.searchOrTrap stop key (i + 1) n

def findOrTrap (m : FreeMap) (key addr : Word) : Checked (Option Nat) :=
  if isMarker addr then .ok none
  else do
    match ← m.searchOrTrap (fun w => w == addr || w == emptySlot) key 0 m.capacity with
    | none => .ok none
    | some pos =>
      let tag ← m.slots.getOrTrap pos
      .ok (if tag = addr then some pos else none)

def insertOrTrap (m : FreeMap) (key addr : Word) : Checked FreeMap :=
  if isMarker addr then violation (.untrackableAddress addr)
  else do
    match ← m.searchOrTrap isMarker key 0 m.capacity with
    | none => violation (.exhausted .freeMap)
    | some pos =>
      let slots ← m.slots.setOrTrap pos addr
      let live ← addOrTrap m.live 1
      .ok { slots, live }

def removeOrTrap (m : FreeMap) (key addr : Word) : Checked FreeMap := do
  match ← m.findOrTrap key addr with
  | none => violation (.invalidFree addr key)
  | some pos =>
    let slots ← m.slots.setOrTrap pos tombstone
    let live ← subOrTrap m.live 1
    .ok { slots, live }

/-- The map has slots, lies in memory, and counts its live records. -/
structure WellFormed (m : FreeMap) : Prop where
  pos : 0 < m.capacity
  room : m.capacity * 8 < 1 <<< 64
  counted : m.Counted

theorem wellFormed_create {capacity : Nat} (h : FreeMap.create host capacity = .ok m) :
    m.WellFormed := by
  obtain ⟨rfl, hz, hroom⟩ := FreeMap.create_eq_ok h
  exact ⟨Nat.pos_of_ne_zero hz, hroom, counted_blank capacity⟩

namespace WellFormed

theorem insert (h : m.WellFormed) (hi : m.insert key addr = .ok m') : m'.WellFormed := by
  have hc := capacity_of_insert hi
  exact ⟨hc ▸ h.pos, hc ▸ h.room, (h.counted.insert hi).1⟩

theorem remove (h : m.WellFormed) (hr : m.remove key addr = .ok m') : m'.WellFormed := by
  have hc := capacity_of_remove hr
  exact ⟨hc ▸ h.pos, hc ▸ h.room, (h.counted.remove hr).1⟩

theorem probeOrTrap_eq (h : m.WellFormed) (key : Word) {i : Nat} (hi : i < m.capacity) :
    m.probeOrTrap key i = .ok (m.probe key i) := by
  have hpos := h.pos
  have hroom := h.room
  have hstart := Nat.mod_lt key.toNat hpos
  rw [probeOrTrap, remOrTrap_eq (by omega), ok_bind, addOrTrap_eq (by omega), ok_bind,
    remOrTrap_eq (by omega), probe]

theorem searchOrTrap_eq (h : m.WellFormed) (stop : Word → Bool) (key : Word) {i n : Nat}
    (hn : i + n ≤ m.capacity) : m.searchOrTrap stop key i n = .ok (m.search stop key i n) := by
  induction n generalizing i with
  | zero => rfl
  | succ n ih =>
    have hlt := probe_lt h.pos key i
    rw [searchOrTrap, h.probeOrTrap_eq key (by omega), ok_bind, Table.getOrTrap_eq hlt, ok_bind,
      ih (by omega), search]
    split <;> rfl

/-- A search answers a slot of the map. -/
theorem lt_of_search (h : m.WellFormed) {stop : Word → Bool} {i n pos : Nat}
    (hs : m.search stop key i n = some pos) : pos < m.capacity := by
  obtain ⟨k, _, _, rfl, _, _⟩ := search_eq_some hs
  exact probe_lt h.pos key k

theorem findOrTrap_eq (h : m.WellFormed) (key addr : Word) :
    m.findOrTrap key addr = .ok (m.find? key addr) := by
  unfold findOrTrap find?
  split
  next => rfl
  next =>
    rw [h.searchOrTrap_eq _ key (Nat.le_of_eq (Nat.zero_add _)), ok_bind]
    cases hs : m.search (fun w => w == addr || w == emptySlot) key 0 m.capacity with
    | none => rfl
    | some pos => simp only [Table.getOrTrap_eq (h.lt_of_search hs), ok_bind]

theorem insertOrTrap_eq (h : m.WellFormed) (key addr : Word) :
    m.insertOrTrap key addr = of (m.insert key addr) := by
  have hlive := h.counted.live_le
  have hroom := h.room
  unfold insertOrTrap FreeMap.insert
  split
  next => rfl
  next =>
    rw [h.searchOrTrap_eq _ key (Nat.le_of_eq (Nat.zero_add _)), ok_bind]
    cases hs : m.search isMarker key 0 m.capacity with
    | none => rfl
    | some pos =>
      simp only [Table.setOrTrap_eq (h.lt_of_search hs), ok_bind]
      rw [addOrTrap_eq (by omega), ok_bind, of_ok]

theorem removeOrTrap_eq (h : m.WellFormed) (key addr : Word) :
    m.removeOrTrap key addr = of (m.remove key addr) := by
  rw [removeOrTrap, h.findOrTrap_eq, ok_bind]
  cases hf : m.find? key addr with
  | none => rw [FreeMap.remove, hf]; rfl
  | some pos =>
    have hr : m.remove key addr = .ok { slots := m.slots.set pos tombstone, live := m.live - 1 } := by
      rw [FreeMap.remove, hf]
    have hcount := (h.counted.remove hr).2
    obtain ⟨_, _, i, _, hp, _⟩ := find?_eq_some hf
    simp only [hr]
    rw [Table.setOrTrap_eq (hp ▸ probe_lt h.pos key i), ok_bind, subOrTrap_eq (by omega), ok_bind,
      of_ok]

end WellFormed

end FreeMap

namespace LockArena

variable {a b : LockArena} {i : Nat}

def acquireOrTrap (a : LockArena) : Checked (Nat × LockArena) :=
  if a.freeHead ≠ linkEnd then do
    let freeHead ← a.links.getOrTrap a.freeHead
    .ok (a.freeHead, { a with freeHead })
  else if a.bump = a.cells.len then violation (.exhausted .lockArena)
  else do
    let bump ← addOrTrap a.bump 1
    let i ← subOrTrap bump 1
    .ok (i, { a with bump })

def releaseOrTrap (a : LockArena) (i : Nat) : Checked LockArena := do
  let cells ← a.cells.setOrTrap i 0
  let links ← a.links.setOrTrap i a.freeHead
  let freeHead ← narrowOrTrap i
  .ok { a with cells, links, freeHead }

/-- Gives a cell to a key and answers the lease. -/
def leaseOrTrap (a : LockArena) (i : Nat) (key : Word) : Checked (Lease × LockArena) := do
  let cells ← a.cells.setOrTrap i key
  let lock ← a.extent.addrOfOrTrap i
  .ok (⟨key, lock⟩, { a with cells })

/-- The link ends the free list or leads to a cell of the arena. -/
def Linked (a : LockArena) (link : Nat) : Prop := link = linkEnd ∨ link < a.cells.len

/-- Every link of the arena, used or not, stays within it. -/
structure WellFormed (a : LockArena) : Prop where
  fits : a.extent.Fits
  small : a.cells.len ≤ linkEnd
  links_len : a.links.len = a.cells.len
  room : a.bump ≤ a.cells.len
  head : a.Linked a.freeHead
  links : ∀ i, a.Linked (a.links.get i)

theorem wellFormed_create {capacity : Nat}
    (h : LockArena.create host capacity = .ok a) (hx : a.extent.Fits) (hs : capacity ≤ linkEnd) :
    a.WellFormed := by
  unfold create at h
  split at h
  next cells links hc hl =>
    obtain ⟨rfl, hz, _⟩ := Table.reserve_eq_ok hc
    obtain ⟨rfl, _, _⟩ := Table.reserve_eq_ok hl
    cases Except.ok.inj h
    refine ⟨hx, hs, rfl, Nat.zero_le _, Or.inl rfl, fun i => Or.inr ?_⟩
    -- a link that was never written reads as cell zero
    rw [Table.get_empty]
    exact Nat.pos_of_ne_zero hz
  next => cases h

namespace WellFormed

theorem lt_of_acquire (h : a.WellFormed) (ha : a.acquire = .ok (i, b)) : i < a.cells.len := by
  have hroom := h.room
  rcases acquire_eq_ok ha with ⟨hf, rfl, _⟩ | ⟨_, hb, rfl, _⟩
  · exact h.head.resolve_left hf
  · omega

theorem acquire (h : a.WellFormed) (ha : a.acquire = .ok (i, b)) : b.WellFormed := by
  have hroom := h.room
  rcases acquire_eq_ok ha with ⟨_, _, rfl⟩ | ⟨_, hb, _, rfl⟩
  · exact ⟨h.fits, h.small, h.links_len, h.room, h.links _, h.links⟩
  · refine ⟨h.fits, h.small, h.links_len, ?_, h.head, h.links⟩
    simp only
    omega

theorem mod_of_lt (h : a.WellFormed) (hi : i < a.cells.len) : i % 1 <<< 32 = i := by
  have hsmall := h.small
  simp only [linkEnd] at hsmall
  exact Nat.mod_eq_of_lt (by omega)

/-- Any cell may be released, one that is free already as well. -/
theorem release (h : a.WellFormed) (hi : i < a.cells.len) : (a.release i).WellFormed := by
  refine ⟨h.fits, h.small, h.links_len, h.room, Or.inr ?_, fun j => ?_⟩
  · show i % 1 <<< 32 < a.cells.len
    rwa [h.mod_of_lt hi]
  · show a.Linked ((a.links.set i a.freeHead).get j)
    rw [Table.get_set]
    split
    next => exact h.head
    next => exact h.links j

theorem assign (h : a.WellFormed) (i : Nat) (key : Word) : (a.assign i key).WellFormed :=
  ⟨h.fits, h.small, h.links_len, h.room, h.head, h.links⟩

theorem acquireOrTrap_eq (h : a.WellFormed) : a.acquireOrTrap = of a.acquire := by
  have hroom := h.room
  have hsmall := h.small
  simp only [linkEnd] at hsmall
  unfold acquireOrTrap LockArena.acquire
  split
  next hf =>
    have hlt := h.links_len ▸ h.head.resolve_left hf
    rw [Table.getOrTrap_eq hlt, ok_bind, of_ok]
  next =>
    split
    next => rfl
    next =>
      rw [addOrTrap_eq (by omega), ok_bind, subOrTrap_eq (Nat.le_add_left ..), ok_bind,
        Nat.add_sub_cancel, of_ok]

theorem releaseOrTrap_eq (h : a.WellFormed) (hi : i < a.cells.len) :
    a.releaseOrTrap i = .ok (a.release i) := by
  have hsmall := h.small
  simp only [linkEnd] at hsmall
  rw [releaseOrTrap, Table.setOrTrap_eq hi, ok_bind, Table.setOrTrap_eq (h.links_len ▸ hi), ok_bind,
    narrowOrTrap_eq (by omega), ok_bind, LockArena.release, h.mod_of_lt hi]

theorem leaseOrTrap_eq (h : a.WellFormed) (hi : i < a.cells.len) (key : Word) :
    a.leaseOrTrap i key = .ok (⟨key, a.addrOf i⟩, a.assign i key) := by
  rw [leaseOrTrap, Table.setOrTrap_eq hi, ok_bind, Extent.addrOfOrTrap_eq h.fits hi, ok_bind]
  rfl

end WellFormed

end LockArena

namespace Lifetimes

variable {l l' : Lifetimes}

def allocateOrTrap (l : Lifetimes) (ptr : Word) : Checked (Except Violation Lease × Lifetimes) :=
  if ptr = 0 then .ok (.error (.untrackableAddress ptr), l)
  else do
    match ← caught l.heap.acquireOrTrap with
    | .error v => .ok (.error v, l)
    | .ok (i, heap) =>
      let key := l.nextKey
      let next ← addOrTrap key.toNat 1
      match l.freeMap with
      | none =>
        let (lease, heap) ← heap.leaseOrTrap i key
        .ok (.ok lease, { l with nextKey := .ofNat next, heap })
      | some map =>
        match ← caught (map.insertOrTrap key ptr) with
        | .error v =>
          let heap ← heap.releaseOrTrap i
          .ok (.error v, { l with nextKey := .ofNat next, heap })
        | .ok map =>
          let (lease, heap) ← heap.leaseOrTrap i key
          .ok (.ok lease, { l with nextKey := .ofNat next, heap, freeMap := some map })

def deallocateOrTrap (l : Lifetimes) (ptr key lock : Word) : Checked Lifetimes :=
  match l.heap.indexOf lock with
  | none => violation (.unknownLock key lock)
  | some i => do
    let held ← l.heap.cells.getOrTrap i
    if held ≠ key then violation (.invalidFree ptr key)
    else
      match l.freeMap with
      | none =>
        let heap ← l.heap.releaseOrTrap i
        .ok { l with heap }
      | some map =>
        let map ← map.removeOrTrap key ptr
        let heap ← l.heap.releaseOrTrap i
        .ok { l with heap, freeMap := some map }

def relocateOrTrap (l : Lifetimes) (old new key : Word) :
    Checked (Except Violation Unit × Lifetimes) :=
  match l.freeMap with
  | none => .ok (.ok (), l)
  | some map => do
    match ← caught (map.removeOrTrap key old) with
    | .error v => .ok (.error v, l)
    | .ok removed =>
      match ← caught (removed.insertOrTrap key new) with
      | .ok map => .ok (.ok (), { l with freeMap := some map })
      | .error v =>
        match ← caught (removed.insertOrTrap key old) with
        | .ok map => .ok (.error v, { l with freeMap := some map })
        | .error w => .ok (.error w, { l with freeMap := some removed })

def stackAllocateOrTrap (l : Lifetimes) : Checked (Lease × Lifetimes) :=
  match l.stack with
  | .shared => .ok (⟨globalKey, l.global.addr⟩, l)
  | .perCall stack =>
    if stack.top = stack.cells.len then violation (.exhausted .stackLockArena)
    else do
      let top ← addOrTrap stack.top 1
      let next ← addOrTrap l.nextKey.toNat 1
      let cells ← stack.cells.setOrTrap stack.top l.nextKey
      let lock ← stack.extent.addrOfOrTrap stack.top
      .ok (⟨l.nextKey, lock⟩,
        { l with nextKey := .ofNat next, stack := .perCall { stack with cells, top } })

def stackDeallocateOrTrap (l : Lifetimes) (key : Word) : Checked Lifetimes :=
  match l.stack with
  | .shared => .ok l
  | .perCall stack =>
    if stack.top = 0 then violation (.stackLockOrder key 0)
    else do
      let top ← subOrTrap stack.top 1
      let observed ← stack.cells.getOrTrap top
      if observed = key then
        let cells ← stack.cells.setOrTrap top 0
        .ok { l with stack := .perCall { stack with cells, top } }
      else violation (.stackLockOrder key observed)

/-- What the lock cell at an address holds; `none` if there is no lock cell. -/
def cellOrTrap (l : Lifetimes) (lock : Word) : Checked (Option Word) :=
  if lock = l.global.addr then .ok (some l.global.holds)
  else
    match l.heap.indexOf lock with
    | some i => do
      let w ← l.heap.cells.getOrTrap i
      .ok (some w)
    | none =>
      match l.stack with
      | .shared => .ok none
      | .perCall stack =>
        match stack.extent.indexOf lock with
        | some i => do
          let w ← stack.cells.getOrTrap i
          .ok (some w)
        | none => .ok none

def checkOrTrap (l : Lifetimes) (key lock : Word) : Checked Unit := do
  match ← l.cellOrTrap lock with
  | none => violation (.unknownLock key lock)
  | some observed => if observed = key then .ok () else violation (.keyMismatch key lock observed)

/-- The arenas and the free map are well formed, and the arenas lie apart. -/
structure WellFormed (l : Lifetimes) : Prop where
  placed : l.Placed
  heap : l.heap.WellFormed
  map : ∀ m, l.freeMap = some m → m.WellFormed

/-- A key can be taken from the counter, or the request takes none. -/
def Spare (l : Lifetimes) (r : Request) : Prop :=
  (l.step r).nextKey ≠ l.nextKey → l.nextKey.toNat + 1 < 1 <<< 64

theorem wellFormed_create {lockEntries stackEntries : Nat} {policy : StackLockPolicy}
    {freeMapEntries : Option Nat}
    (h : Lifetimes.create host lockEntries policy stackEntries freeMapEntries = .ok l)
    (hs : lockEntries ≤ linkEnd) : l.WellFormed := by
  have hp := placed_create h
  obtain ⟨_, _, hheap, _, _, hmap⟩ := Lifetimes.create_eq_ok h
  refine ⟨hp, LockArena.wellFormed_create hheap hp.heap_fits hs, fun m hm => ?_⟩
  rw [hm] at hmap
  cases hmap with
  | some hc => exact FreeMap.wellFormed_create hc

theorem ofNat_succ (key : Word) : UInt64.ofNat (key.toNat + 1) = key + 1 := by
  rw [UInt64.ofNat_add, UInt64.ofNat_toNat]
  rfl

theorem succ_ne (key : Word) : key + 1 ≠ key := by
  simp

namespace WellFormed

/-- A map that comes from the one there was, if there was one, is well formed. -/
theorem of_rel {P : FreeMap → FreeMap → Prop} {map : Option FreeMap} (h : l.WellFormed)
    (hr : Option.Rel P l.freeMap map)
    (keep : ∀ m m', m.WellFormed → P m m' → m'.WellFormed) :
    ∀ m, map = some m → m.WellFormed := by
  rintro m' rfl
  generalize hl : l.freeMap = o at hr
  cases hr with
  | @some m _ hp => exact keep m m' (h.map m hl) hp

theorem change {r : Request} {o : Except Violation (Option Lease)} (h : l.WellFormed)
    (hc : Change l r o l') : l'.WellFormed := by
  have hplaced := hc.placed h.placed
  cases hc with
  | refused => exact h
  | @granted _ i heap _ _ ha hmap =>
    exact ⟨hplaced, (h.heap.acquire ha).assign i l.nextKey,
      h.of_rel hmap fun _ _ hm hi => hm.insert hi⟩
  | turnedAway _ ha _ _ =>
    have hlt := h.heap.lt_of_acquire ha
    rw [← (LockArena.acquire_keeps ha).2] at hlt
    exact ⟨hplaced, (h.heap.acquire ha).release hlt, h.map⟩
  | released hi _ hmap =>
    have hlt := ((Extent.indexOf_eq_some_iff h.heap.fits).mp hi).1
    exact ⟨hplaced, h.heap.release hlt, h.of_rel hmap fun _ _ hm hr => hm.remove hr⟩
  | moved hmap =>
    refine ⟨hplaced, h.heap, h.of_rel hmap fun _ _ hm hr => ?_⟩
    obtain ⟨removed, hremove, hinsert⟩ := hr
    exact (hm.remove hremove).insert hinsert
  | restored hm hr _ hi =>
    refine ⟨hplaced, h.heap, ?_⟩
    rintro _ ⟨⟩
    exact ((h.map _ hm).remove hr).insert hi
  | shared => exact h
  | pushed => exact ⟨hplaced, h.heap, h.map⟩
  | ignored => exact h
  | popped => exact ⟨hplaced, h.heap, h.map⟩

theorem step (h : l.WellFormed) (r : Request) : (l.step r).WellFormed :=
  h.change (change_serve l r)

theorem allocate (h : l.WellFormed) (ptr : Word) : (l.allocate ptr).2.WellFormed :=
  l.step_allocate ptr ▸ h.step _

theorem relocate (h : l.WellFormed) (old new key : Word) : (l.relocate old new key).2.WellFormed :=
  l.step_relocate old new key ▸ h.step _

theorem deallocate (h : l.WellFormed) {ptr key lock : Word}
    (hd : l.deallocate ptr key lock = .ok l') : l'.WellFormed :=
  step_deallocate_of_ok hd ▸ h.step _

theorem stackAllocate (h : l.WellFormed) {lease : Lease} (ha : l.stackAllocate = .ok (lease, l')) :
    l'.WellFormed :=
  step_stackAllocate_of_ok ha ▸ h.step _

theorem stackDeallocate (h : l.WellFormed) {key : Word} (hd : l.stackDeallocate key = .ok l') :
    l'.WellFormed :=
  step_stackDeallocate_of_ok hd ▸ h.step _

theorem allocateOrTrap_eq (h : l.WellFormed) {ptr : Word} (hs : l.Spare (.allocate ptr)) :
    l.allocateOrTrap ptr = .ok (l.allocate ptr) := by
  rw [Spare, step_allocate] at hs
  unfold allocateOrTrap
  unfold Lifetimes.allocate at hs ⊢
  by_cases hp : ptr = 0
  · rw [if_pos hp, if_pos hp]
  · simp only [if_neg hp, h.heap.acquireOrTrap_eq, caught_of, ok_bind] at hs ⊢
    cases ha : l.heap.acquire with
    | error v => rfl
    | ok taken =>
      obtain ⟨i, heap⟩ := taken
      have hheap := h.heap.acquire ha
      have hi : i < heap.cells.len := by
        rw [(LockArena.acquire_keeps ha).2]
        exact h.heap.lt_of_acquire ha
      rw [ha] at hs
      cases hm : l.freeMap with
      | none =>
        rw [hm] at hs
        have hspare := hs (succ_ne l.nextKey)
        simp only [addOrTrap_eq hspare, ok_bind, hheap.leaseOrTrap_eq hi, ofNat_succ]
      | some map =>
        cases hins : map.insert l.nextKey ptr with
        | error v =>
          simp only [hm, hins] at hs
          have hspare := hs (succ_ne l.nextKey)
          simp only [addOrTrap_eq hspare, ok_bind, (h.map map hm).insertOrTrap_eq, hins, caught_of,
            hheap.releaseOrTrap_eq hi, ofNat_succ]
        | ok map' =>
          simp only [hm, hins] at hs
          have hspare := hs (succ_ne l.nextKey)
          simp only [addOrTrap_eq hspare, ok_bind, (h.map map hm).insertOrTrap_eq, hins, caught_of,
            hheap.leaseOrTrap_eq hi, ofNat_succ]

theorem deallocateOrTrap_eq (h : l.WellFormed) (ptr key lock : Word) :
    l.deallocateOrTrap ptr key lock = of (l.deallocate ptr key lock) := by
  unfold deallocateOrTrap Lifetimes.deallocate
  cases hi : l.heap.indexOf lock with
  | none => rfl
  | some i =>
    have hlt : i < l.heap.cells.len := ((Extent.indexOf_eq_some_iff h.heap.fits).mp hi).1
    simp only [Table.getOrTrap_eq hlt, ok_bind]
    by_cases hk : l.heap.cells.get i = key
    · simp only [hk, ne_eq, not_true_eq_false, ↓reduceIte]
      cases hm : l.freeMap with
      | none => simp only [h.heap.releaseOrTrap_eq hlt, ok_bind, of_ok]
      | some map =>
        simp only [(h.map map hm).removeOrTrap_eq]
        cases map.remove key ptr with
        | error v => rfl
        | ok map' => simp only [of_ok, ok_bind, h.heap.releaseOrTrap_eq hlt]
    · simp only [hk, ne_eq, not_false_eq_true, ↓reduceIte]
      rfl

theorem relocateOrTrap_eq (h : l.WellFormed) (old new key : Word) :
    l.relocateOrTrap old new key = .ok (l.relocate old new key) := by
  unfold relocateOrTrap Lifetimes.relocate
  cases hm : l.freeMap with
  | none => rfl
  | some map =>
    have hmap := h.map map hm
    simp only [hmap.removeOrTrap_eq, caught_of, ok_bind]
    cases hr : map.remove key old with
    | error v => rfl
    | ok removed =>
      simp only [(hmap.remove hr).insertOrTrap_eq, caught_of, ok_bind]
      cases removed.insert key new with
      | ok map' => rfl
      | error v =>
        simp only
        cases removed.insert key old <;> rfl

theorem stackAllocateOrTrap_eq (h : l.WellFormed) (hs : l.Spare .stackAllocate) :
    l.stackAllocateOrTrap = of l.stackAllocate := by
  rw [Spare, Lifetimes.step, serve] at hs
  unfold stackAllocateOrTrap
  unfold Lifetimes.stackAllocate at hs ⊢
  cases hstack : l.stack with
  | shared => rfl
  | perCall stack =>
    have htop := h.placed.stack_top stack hstack
    have hfits := h.placed.stack_fits hstack
    have hroom : stack.base.toNat + stack.cells.len * 8 ≤ 1 <<< 64 := hfits.2
    by_cases hfull : stack.top = stack.cells.len
    · simp only [LockStack.push, if_pos hfull]
      rfl
    · have hlt : stack.top < stack.cells.len := by omega
      simp only [hstack, LockStack.push, if_neg hfull] at hs ⊢
      have hspare := hs (succ_ne l.nextKey)
      rw [addOrTrap_eq (by omega), ok_bind, addOrTrap_eq hspare, ok_bind, Table.setOrTrap_eq hlt,
        ok_bind, Extent.addrOfOrTrap_eq hfits hlt, ok_bind, ofNat_succ, of_ok, LockStack.give]

/-- The last key is not given out: the counter would wrap. -/
example :
    let heap : LockArena := { base := heapLocksAddr, cells := { len := 4 }, links := { len := 4 } }
    let stack : LockStack := { base := stackLocksAddr, cells := { len := 4 } }
    Lifetimes.stackAllocateOrTrap
        ⟨0xffffffffffffffff, ⟨globalLockAddr, globalKey⟩, heap, .perCall stack, none⟩
      = .error (.trap .overflow) :=
  rfl

theorem stackDeallocateOrTrap_eq (h : l.WellFormed) (key : Word) :
    l.stackDeallocateOrTrap key = of (l.stackDeallocate key) := by
  unfold stackDeallocateOrTrap Lifetimes.stackDeallocate
  cases hstack : l.stack with
  | shared => rfl
  | perCall stack =>
    have htop := h.placed.stack_top stack hstack
    by_cases hz : stack.top = 0
    · simp only [if_pos hz, LockStack.pop]
      rfl
    · have hlt : stack.top - 1 < stack.cells.len := by omega
      simp only [if_neg hz, subOrTrap_eq (show 1 ≤ stack.top by omega), ok_bind,
        Table.getOrTrap_eq hlt, Table.setOrTrap_eq hlt, LockStack.pop]
      split <;> rfl

theorem cellOrTrap_eq (h : l.WellFormed) (lock : Word) : l.cellOrTrap lock = .ok (l.cell? lock) := by
  unfold cellOrTrap cell?
  split
  next => rfl
  next =>
    rw [LockArena.observe]
    cases hi : l.heap.indexOf lock with
    | some i =>
      have hlt : i < l.heap.cells.len := ((Extent.indexOf_eq_some_iff h.heap.fits).mp hi).1
      simp only [Table.getOrTrap_eq hlt, ok_bind]
      rfl
    | none =>
      cases hstack : l.stack with
      | shared => rfl
      | perCall stack =>
        simp only [StackLocks.observe, LockStack.observe]
        cases hj : stack.extent.indexOf lock with
        | none => rfl
        | some i =>
          have hlt : i < stack.cells.len :=
            ((Extent.indexOf_eq_some_iff (h.placed.stack_fits hstack)).mp hj).1
          simp only [Table.getOrTrap_eq hlt, ok_bind]
          rfl

theorem checkOrTrap_eq (h : l.WellFormed) (key lock : Word) :
    l.checkOrTrap key lock = of (l.check key lock) := by
  rw [checkOrTrap, h.cellOrTrap_eq, ok_bind, check, observe]
  cases l.cell? lock with
  | none => rfl
  | some observed =>
    simp only
    split <;> rfl

end WellFormed

end Lifetimes

end PointerGuard
