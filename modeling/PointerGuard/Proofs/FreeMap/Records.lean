import Mathlib.Data.List.Nodup
import Mathlib.Logic.Equiv.Basic
import PointerGuard.Proofs.Creation
import PointerGuard.Proofs.FreeMap.Probes

namespace PointerGuard.FreeMap

variable {host : Host} {m m' : FreeMap}

/-- A record of `addr` under `key` that stands in slot `pos`. -/
structure Entry where
  key : Word
  addr : Word
  pos : Nat

def Entry.record (e : Entry) : Word × Word := (e.key, e.addr)

/-- The entries take the slots that hold an address, one each, and every entry is within its key's
reach. -/
structure Holds (m : FreeMap) (es : List Entry) : Prop where
  kept : ∀ e ∈ es, m.Reaches e.key e.pos ∧ m.slots.get e.pos = e.addr ∧ isMarker e.addr = false
  apart : (es.map Entry.pos).Nodup
  whole : ∀ pos < m.capacity, isMarker (m.slots.get pos) = false → ∃ e ∈ es, e.pos = pos
  live : m.live = es.length

/-- The map records these pairs of a key and an address, in some order. -/
def Carries (m : FreeMap) (records : List (Word × Word)) : Prop :=
  ∃ es, m.Holds es ∧ (es.map Entry.record).Perm records

theorem Holds.perm {es fs : List Entry} (h : m.Holds es) (hp : es.Perm fs) : m.Holds fs where
  kept e he := h.kept e (hp.mem_iff.mpr he)
  apart := (hp.map _).nodup_iff.mp h.apart
  whole pos hpos hm := by
    obtain ⟨e, he, hpe⟩ := h.whole pos hpos hm
    exact ⟨e, hp.mem_iff.mp he, hpe⟩
  live := h.live.trans hp.length_eq

theorem Carries.perm {rs qs : List (Word × Word)} (h : m.Carries rs) (hp : rs.Perm qs) :
    m.Carries qs := by
  obtain ⟨es, hes, her⟩ := h
  exact ⟨es, hes, her.trans hp⟩

theorem Carries.live {rs : List (Word × Word)} (h : m.Carries rs) : m.live = rs.length := by
  obtain ⟨es, hes, her⟩ := h
  rw [hes.live, ← her.length_eq, List.length_map]

theorem carries_create {capacity : Nat} (h : create host capacity = .ok m) : m.Carries [] := by
  obtain ⟨rfl, _⟩ := create_eq_ok h
  refine ⟨[], ⟨by simp, by simp, ?_, rfl⟩, by simp⟩
  intro pos _ hm
  simp [isMarker, emptySlot] at hm

theorem isMarker_eq_false_iff {w : Word} :
    isMarker w = false ↔ w ≠ emptySlot ∧ w ≠ tombstone := by
  simp [isMarker]

theorem insert_eq_ok {key addr : Word} (h : m.insert key addr = .ok m') :
    isMarker addr = false ∧ ∃ pos, m.Reaches key pos ∧ isMarker (m.slots.get pos) = true ∧
      m' = { slots := m.slots.set pos addr, live := m.live + 1 } := by
  unfold insert at h
  split at h
  next => simp at h
  next hm =>
    split at h
    next pos hs =>
      obtain ⟨i, _, hi, hp, hstop, hfirst⟩ := search_eq_some hs
      refine ⟨by simpa using hm, pos, ⟨i, by omega, hp, fun j hj => ?_⟩, hstop,
        (Except.ok.inj h).symm⟩
      exact (isMarker_eq_false_iff.mp (hfirst j (by omega) hj)).1
    next => simp at h

theorem insert_of_marker_slot {key addr : Word} {pos : Nat} (ha : isMarker addr = false)
    (hpos : pos < m.capacity) (hm : isMarker (m.slots.get pos) = true) :
    ∃ m', m.insert key addr = .ok m' := by
  unfold insert
  rw [if_neg (by simp [ha])]
  cases hs : m.search isMarker key 0 m.capacity with
  | some found => exact ⟨_, rfl⟩
  | none =>
    obtain ⟨i, hi, hp⟩ := exists_probe_eq hpos key
    have hfree := search_eq_none_iff.mp hs i (by omega) (by omega)
    rw [hp, hm] at hfree
    cases hfree

theorem Holds.insert {es : List Entry} {key addr : Word} {pos : Nat} (h : m.Holds es)
    (ha : isMarker addr = false) (hr : m.Reaches key pos)
    (hm : isMarker (m.slots.get pos) = true) :
    Holds { slots := m.slots.set pos addr, live := m.live + 1 } (⟨key, addr, pos⟩ :: es) := by
  have hused := (isMarker_eq_false_iff.mp ha).1
  have hne : ∀ e ∈ es, e.pos ≠ pos := by
    rintro e he rfl
    obtain ⟨_, hs, hn⟩ := h.kept e he
    rw [hs, hn] at hm
    cases hm
  refine ⟨?_, ?_, ?_, by simp [h.live]⟩
  · intro e he
    rcases List.mem_cons.mp he with rfl | he
    · exact ⟨hr.set hused _ _, Table.get_set_self _ _ _, ha⟩
    · obtain ⟨hre, hs, hn⟩ := h.kept e he
      exact ⟨hre.set hused _ _, by rw [Table.get_set_of_ne (hne e he), hs], hn⟩
  · refine List.nodup_cons.mpr ⟨?_, h.apart⟩
    intro hmem
    obtain ⟨e, he, hpe⟩ := List.mem_map.mp hmem
    exact hne e he hpe
  · intro p hp hn
    by_cases hpp : p = pos
    · exact ⟨⟨key, addr, pos⟩, by simp, hpp.symm⟩
    · rw [Table.get_set_of_ne hpp] at hn
      obtain ⟨e, he, hpe⟩ := h.whole p hp hn
      exact ⟨e, by simp [he], hpe⟩

theorem Carries.insert {rs : List (Word × Word)} {key addr : Word} (h : m.Carries rs)
    (hi : m.insert key addr = .ok m') : m'.Carries ((key, addr) :: rs) := by
  obtain ⟨es, hes, her⟩ := h
  obtain ⟨ha, pos, hr, hm, rfl⟩ := insert_eq_ok hi
  exact ⟨⟨key, addr, pos⟩ :: es, hes.insert ha hr hm, her.cons _⟩

theorem remove_eq_ok {key addr : Word} (h : m.remove key addr = .ok m') :
    ∃ pos, m.find? key addr = some pos ∧
      m' = { slots := m.slots.set pos tombstone, live := m.live - 1 } := by
  unfold remove at h
  split at h
  next pos hf => exact ⟨pos, hf, (Except.ok.inj h).symm⟩
  next => simp at h

theorem remove_eq_ok_iff {key addr : Word} :
    (∃ m', m.remove key addr = .ok m') ↔ m.contains key addr = true := by
  unfold remove contains
  cases hf : m.find? key addr <;> simp

theorem isMarker_of_remove {key addr : Word} (h : m.remove key addr = .ok m') :
    isMarker addr = false := by
  obtain ⟨pos, hf, _⟩ := remove_eq_ok h
  exact (find?_eq_some hf).1

/-- The slot of a record that was just removed takes any other. -/
theorem insert_of_remove {key addr : Word} (h : m.remove key addr = .ok m') (other : Word)
    {new : Word} (hn : isMarker new = false) : ∃ m'', m'.insert other new = .ok m'' := by
  obtain ⟨pos, hf, rfl⟩ := remove_eq_ok h
  obtain ⟨_, _, i, hi, hp, _⟩ := find?_eq_some hf
  have hpos : pos < m.capacity := hp ▸ probe_lt (by omega) key i
  exact insert_of_marker_slot hn hpos (by simp [isMarker])

def Entry.swap (p q : Nat) (e : Entry) : Entry := { e with pos := Equiv.swap p q e.pos }

theorem get_swap {p q : Nat} (hpq : m.slots.get p = m.slots.get q) (pos : Nat) :
    m.slots.get (Equiv.swap p q pos) = m.slots.get pos := by
  rw [Equiv.swap_apply_def]
  split
  next hp => rw [hp, hpq]
  next =>
    split
    next hq => rw [hq, hpq]
    next => rfl

/-- Two slots that hold the same address may change places, as far as the keys reach. -/
theorem Holds.swap {es : List Entry} {p q : Nat} (h : m.Holds es) (hp : p < m.capacity)
    (hq : q < m.capacity) (hpq : m.slots.get p = m.slots.get q)
    (hr : ∀ e ∈ es, m.Reaches e.key (Equiv.swap p q e.pos)) :
    m.Holds (es.map (Entry.swap p q)) := by
  refine ⟨?_, ?_, ?_, by rw [List.length_map, h.live]⟩
  · intro f hf
    obtain ⟨e, he, rfl⟩ := List.mem_map.mp hf
    obtain ⟨_, hs, hn⟩ := h.kept e he
    exact ⟨hr e he, (get_swap hpq e.pos).trans hs, hn⟩
  · have hcomp : (es.map (Entry.swap p q)).map Entry.pos
        = (es.map Entry.pos).map (Equiv.swap p q) := by
      rw [List.map_map, List.map_map]
      rfl
    rw [hcomp]
    exact h.apart.map (Equiv.swap p q).injective
  · intro pos hpos hn
    have hback : Equiv.swap p q pos < m.capacity := by
      rw [Equiv.swap_apply_def]
      split
      next => exact hq
      next =>
        split
        next => exact hp
        next => exact hpos
    obtain ⟨e, he, heq⟩ := h.whole _ hback (by rwa [get_swap hpq])
    exact ⟨e.swap p q, List.mem_map_of_mem he, by rw [Entry.swap, heq, Equiv.swap_apply_self]⟩

/-- The entry of a record may be taken to stand in the slot where a search for it ends: the two
slots hold the same address, and who reaches the first reaches the second. -/
theorem Holds.exchange {e : Entry} {es : List Entry} {pos : Nat} (h : m.Holds (e :: es))
    (hf : m.find? e.key e.addr = some pos) :
    ∃ fs, m.Holds (⟨e.key, e.addr, pos⟩ :: fs) ∧ fs.map Entry.record = es.map Entry.record := by
  obtain ⟨⟨k, hk, hkp, hkb⟩, hs, _⟩ := h.kept e (by simp)
  obtain ⟨_, hpa, i, hi, hip, hib⟩ := find?_eq_some hf
  have hfirst : m.Reaches e.key pos := ⟨i, hi, hip, fun j hj => (hib j hj).1⟩
  have hik : i ≤ k := by
    by_contra hlt
    exact (hib k (by omega)).2 (by rw [hkp, hs])
  have hpast : ∀ key, m.Reaches key pos → m.Reaches key e.pos := by
    intro key hr
    have hto := hr.past (d := k - i) (by omega) fun t ht => by
      rw [← hip, probe_add]
      exact hkb (i + t) (by omega)
    rwa [← hip, probe_add, Nat.add_sub_cancel' hik, hkp] at hto
  have hends : e.pos < m.capacity := hkp ▸ probe_lt (by omega) e.key k
  have hkeys : ∀ f ∈ e :: es, m.Reaches f.key (Equiv.swap pos e.pos f.pos) := by
    intro f hfm
    obtain ⟨hr, _⟩ := h.kept f hfm
    rw [Equiv.swap_apply_def]
    split
    next hp => exact hpast f.key (hp ▸ hr)
    next =>
      split
      next hq =>
        rcases List.mem_cons.mp hfm with rfl | hfe
        · exact hfirst
        · exact absurd (hq ▸ List.mem_map_of_mem hfe) (List.nodup_cons.mp h.apart).1
      next => exact hr
  have hswap := h.swap hfirst.lt hends (hpa.trans hs.symm) hkeys
  rw [List.map_cons, Entry.swap, Equiv.swap_apply_right] at hswap
  refine ⟨es.map (Entry.swap pos e.pos), hswap, ?_⟩
  rw [List.map_map]
  rfl

theorem Holds.erase {e : Entry} {es : List Entry} (h : m.Holds (e :: es)) :
    Holds { slots := m.slots.set e.pos tombstone, live := m.live - 1 } es := by
  obtain ⟨hfresh, hnodup⟩ := List.nodup_cons.mp h.apart
  refine ⟨?_, hnodup, ?_, by simp [h.live]⟩
  · intro f hf
    obtain ⟨hr, hs, hn⟩ := h.kept f (by simp [hf])
    have hne : f.pos ≠ e.pos := fun heq => hfresh (heq ▸ List.mem_map_of_mem hf)
    exact ⟨hr.set (by decide) _ _, by rw [Table.get_set_of_ne hne, hs], hn⟩
  · intro p hp hn
    by_cases hpe : p = e.pos
    · simp [hpe, isMarker] at hn
    · rw [Table.get_set_of_ne hpe] at hn
      obtain ⟨f, hf, hfp⟩ := h.whole p hp hn
      rcases List.mem_cons.mp hf with rfl | hf
      · exact absurd hfp.symm hpe
      · exact ⟨f, hf, hfp⟩

/-- A record is found under its own key. -/
theorem Carries.contains {rs : List (Word × Word)} {key addr : Word} (h : m.Carries rs)
    (hr : (key, addr) ∈ rs) : m.contains key addr = true := by
  obtain ⟨es, hes, her⟩ := h
  obtain ⟨e, he, heq⟩ := List.mem_map.mp (her.mem_iff.mpr hr)
  cases heq
  obtain ⟨hreach, hs, hn⟩ := hes.kept e he
  exact contains_iff.mpr ⟨hn, e.pos, hreach, hs⟩

/-- Only recorded addresses are found, though perhaps under another key. -/
theorem Carries.exists_record {rs : List (Word × Word)} {key addr : Word} (h : m.Carries rs)
    (hf : m.contains key addr = true) : ∃ other, (other, addr) ∈ rs := by
  obtain ⟨es, hes, her⟩ := h
  obtain ⟨hn, pos, hreach, rfl⟩ := contains_iff.mp hf
  obtain ⟨e, he, hpe⟩ := hes.whole pos hreach.lt hn
  refine ⟨e.key, her.mem_iff.mp (List.mem_map.mpr ⟨e, he, ?_⟩)⟩
  rw [Entry.record, ← hpe, (hes.kept e he).2.1]

/-- A removal under the record's own key takes exactly this record away. -/
theorem Carries.remove {rs : List (Word × Word)} {key addr : Word}
    (h : m.Carries ((key, addr) :: rs)) :
    ∃ m', m.remove key addr = .ok m' ∧ m'.Carries rs := by
  obtain ⟨pos, hf⟩ := Option.isSome_iff_exists.mp (h.contains (List.mem_cons_self ..))
  obtain ⟨es, hes, her⟩ := h
  obtain ⟨e, he, heq⟩ := List.mem_map.mp (her.mem_iff.mpr (List.mem_cons_self ..))
  cases heq
  obtain ⟨xs, ys, rfl⟩ := List.append_of_mem he
  obtain ⟨fs, hfs, hrec⟩ := (hes.perm List.perm_middle).exchange hf
  refine ⟨_, by rw [FreeMap.remove, hf], fs, hfs.erase, ?_⟩
  rw [hrec]
  exact (((List.perm_middle (a := e)).map Entry.record).symm.trans her).cons_inv

end PointerGuard.FreeMap
