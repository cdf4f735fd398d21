import Mathlib.Tactic.Common
import PointerGuard.FreeMap

namespace PointerGuard.FreeMap

variable {m : FreeMap}

theorem probe_lt (hc : 0 < m.capacity) (key : Word) (i : Nat) : m.probe key i < m.capacity :=
  Nat.mod_lt _ hc

theorem probe_add (key : Word) (i t : Nat) :
    (m.probe key i + t) % m.capacity = m.probe key (i + t) := by
  rw [probe, probe, Nat.mod_add_mod, Nat.add_assoc]

theorem probe_add_capacity (key : Word) (i : Nat) :
    m.probe key (i + m.capacity) = m.probe key i := by
  rw [probe, probe, ← Nat.add_assoc, Nat.add_mod_right]

theorem exists_probe_eq {pos : Nat} (hp : pos < m.capacity) (key : Word) :
    ∃ i < m.capacity, m.probe key i = pos := by
  have hs : key.toNat % m.capacity < m.capacity := Nat.mod_lt _ (by omega)
  by_cases hle : key.toNat % m.capacity ≤ pos
  · refine ⟨pos - key.toNat % m.capacity, by omega, ?_⟩
    rw [probe, Nat.add_sub_cancel' hle, Nat.mod_eq_of_lt hp]
  · refine ⟨pos + m.capacity - key.toNat % m.capacity, by omega, ?_⟩
    rw [probe, Nat.add_sub_cancel' (by omega), Nat.add_mod_right, Nat.mod_eq_of_lt hp]

theorem search_eq_some {stop : Word → Bool} {key : Word} {i n pos : Nat}
    (h : m.search stop key i n = some pos) :
    ∃ k, i ≤ k ∧ k < i + n ∧ m.probe key k = pos ∧ stop (m.slots.get pos) ∧
      ∀ j, i ≤ j → j < k → stop (m.slots.get (m.probe key j)) = false := by
  induction n generalizing i with
  | zero => simp [search] at h
  | succ n ih =>
    unfold search at h
    split at h
    next hs =>
      cases Option.some.inj h
      exact ⟨i, Nat.le_refl i, by omega, rfl, hs, fun j hj hlt => by omega⟩
    next hs =>
      obtain ⟨k, hik, hkn, hk, hstop, hbefore⟩ := ih h
      refine ⟨k, by omega, by omega, hk, hstop, ?_⟩
      intro j hj hlt
      by_cases hji : j = i
      · subst hji
        simpa using hs
      · exact hbefore j (by omega) hlt

theorem search_eq_none_iff {stop : Word → Bool} {key : Word} {i n : Nat} :
    m.search stop key i n = none ↔
      ∀ j, i ≤ j → j < i + n → stop (m.slots.get (m.probe key j)) = false := by
  induction n generalizing i with
  | zero =>
    simp only [search, true_iff]
    intro j hj hlt
    omega
  | succ n ih =>
    unfold search
    split
    next hs =>
      simp only [reduceCtorEq, false_iff, not_forall]
      exact ⟨i, Nat.le_refl i, by omega, by simp [hs]⟩
    next hs =>
      rw [ih]
      constructor
      · intro h j hj hlt
        by_cases hji : j = i
        · subst hji
          simpa using hs
        · exact h j (by omega) (by omega)
      · exact fun h j hj hlt => h j (by omega) (by omega)

/-- A key's probe sequence meets the slot before any slot that was never used. -/
def Reaches (m : FreeMap) (key : Word) (pos : Nat) : Prop :=
  ∃ i < m.capacity, m.probe key i = pos ∧ ∀ j < i, m.slots.get (m.probe key j) ≠ emptySlot

theorem Reaches.lt {key : Word} {pos : Nat} (h : m.Reaches key pos) : pos < m.capacity := by
  obtain ⟨i, hi, rfl, _⟩ := h
  exact probe_lt (by omega) key i

/-- Writing an address or a tombstone keeps every slot within reach. -/
theorem Reaches.set {key w : Word} {pos : Nat} (h : m.Reaches key pos) (hw : w ≠ emptySlot)
    (p live : Nat) : Reaches { slots := m.slots.set p w, live } key pos := by
  obtain ⟨i, hi, hp, hbefore⟩ := h
  refine ⟨i, hi, hp, fun j hj => ?_⟩
  rw [Table.get_set]
  split
  next => exact hw
  next => exact hbefore j hj

/-- What lies behind a slot without an unused one in between is in reach of every key that reaches
the slot, also where the sequence has to wrap past the key's own start. -/
theorem Reaches.past {key : Word} {pos d : Nat} (h : m.Reaches key pos) (hd : d < m.capacity)
    (hgap : ∀ t < d, m.slots.get ((pos + t) % m.capacity) ≠ emptySlot) :
    m.Reaches key ((pos + d) % m.capacity) := by
  obtain ⟨i, hi, rfl, hbefore⟩ := h
  by_cases hwrap : i + d < m.capacity
  · refine ⟨i + d, hwrap, (probe_add key i d).symm, fun j hj => ?_⟩
    by_cases hji : j < i
    · exact hbefore j hji
    · have hg := hgap (j - i) (by omega)
      rwa [probe_add, Nat.add_sub_cancel' (by omega)] at hg
  · refine ⟨i + d - m.capacity, by omega, ?_, fun j hj => hbefore j (by omega)⟩
    rw [probe_add, ← probe_add_capacity, Nat.sub_add_cancel (by omega)]

theorem find?_eq_some {key addr : Word} {pos : Nat} (h : m.find? key addr = some pos) :
    isMarker addr = false ∧ m.slots.get pos = addr ∧
      ∃ i < m.capacity, m.probe key i = pos ∧
        ∀ j < i, m.slots.get (m.probe key j) ≠ emptySlot ∧
          m.slots.get (m.probe key j) ≠ addr := by
  unfold find? at h
  split at h
  next => simp at h
  next hm =>
    split at h
    next found hs =>
      split at h
      next ha =>
        cases Option.some.inj h
        obtain ⟨i, _, hi, hp, _, hbefore⟩ := search_eq_some hs
        refine ⟨by simpa using hm, ha, i, by omega, hp, fun j hj => ?_⟩
        have hstop := hbefore j (by omega) hj
        simp only [Bool.or_eq_false_iff, beq_eq_false_iff_ne] at hstop
        exact hstop.symm
      next => simp at h
    next => simp at h

/-- A key's probe sequence meets the address before any slot that was never used. -/
def Meets (m : FreeMap) (key addr : Word) : Prop :=
  ∃ pos, m.Reaches key pos ∧ m.slots.get pos = addr

theorem contains_iff {key addr : Word} :
    m.contains key addr = true ↔ isMarker addr = false ∧ m.Meets key addr := by
  unfold contains
  constructor
  · intro h
    obtain ⟨pos, hf⟩ := Option.isSome_iff_exists.mp h
    obtain ⟨hm, ha, i, hi, hp, hbefore⟩ := find?_eq_some hf
    exact ⟨hm, pos, ⟨i, hi, hp, fun j hj => (hbefore j hj).1⟩, ha⟩
  · rintro ⟨hm, pos, ⟨i, hi, hp, hbefore⟩, ha⟩
    have hne : addr ≠ emptySlot := by
      rintro rfl
      simp [isMarker] at hm
    unfold find?
    rw [if_neg (by simp [hm])]
    cases hs : m.search (fun w => w == addr || w == emptySlot) key 0 m.capacity with
    | none =>
      have hstop := search_eq_none_iff.mp hs i (by omega) (by omega)
      simp [hp, ha] at hstop
    | some found =>
      obtain ⟨k, _, hk, hkp, hstop, hfirst⟩ := search_eq_some hs
      -- the search cannot pass the slot of `addr`, and nothing before that slot is unused
      have hki : k ≤ i := by
        by_contra hlt
        have := hfirst i (by omega) (by omega)
        simp [hp, ha] at this
      have hfound : m.slots.get found = addr := by
        by_cases hki' : k = i
        · rw [← hkp, hki', hp, ha]
        · have hused := hbefore k (by omega)
          rw [hkp] at hused
          simpa [hused] using hstop
      simp [hfound]

end PointerGuard.FreeMap
