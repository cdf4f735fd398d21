import PointerGuard.Proofs.Lifetimes.Holdings
import PointerGuard.Proofs.Lifetimes.Revocation

namespace PointerGuard.Lifetimes

variable {host : Host} {l : Lifetimes} {key lock : Word} {rs : List Request}

/-- The request takes this lease back. -/
def Releases (key lock : Word) (l : Lifetimes) (r : Request) : Prop :=
  ∃ ptr, r = .deallocate ptr key lock ∧ (l.serve r).1 = .ok none

theorem gone_of_ever (hp : l.Placed) (hk : l.Keyed) (hz : key ≠ 0)
    (hn : l.nextKey.toNat + l.keysDrawn rs < 2 ^ 64)
    (h : Runs.Ever step (Releases key lock) l rs) : (l.after rs).Gone key := by
  induction rs generalizing l with
  | nil => exact h.elim
  | cons r rs ih =>
    obtain ⟨hp', hk', _, heq⟩ := step_keyed hp hk r rs hn
    rw [← heq] at hn
    rcases h with ⟨ptr, rfl, hok⟩ | h
    · have hc := hok ▸ change_step l (.deallocate ptr key lock)
      exact after_gone hp' hk' (hc.gone_of_deallocate hp hk hz) rs hn
    · exact ih hp' hk' hn h

theorem mem_note {held : List Holding} {r : Request} {a : Except Violation (Option Lease)}
    (hm : ⟨key, lock⟩ ∈ held.map Holding.lease)
    (h : ∀ ptr o, r = .deallocate ptr key lock → a ≠ .ok o) :
    ⟨key, lock⟩ ∈ (note held r a).map Holding.lease := by
  cases a with
  | error v => rwa [note_error]
  | ok o =>
    cases r with
    | allocate ptr =>
      cases o with
      | none => exact hm
      | some lease => exact List.mem_cons_of_mem _ hm
    | deallocate ptr key' lock' =>
      obtain ⟨x, hx, hlease⟩ := List.mem_map.mp hm
      refine List.mem_map.mpr ⟨x, List.mem_filter.mpr ⟨hx, decide_eq_true fun heq => ?_⟩, hlease⟩
      cases hlease.symm.trans heq
      exact h ptr o rfl rfl
    | relocate old new key' =>
      rw [note, leases_move]
      exact hm
    | stackAllocate => exact hm
    | stackDeallocate key' => exact hm

theorem mem_leases_step {w : Watched} {r : Request} (hm : ⟨key, lock⟩ ∈ w.leases)
    (h : ¬Releases key lock w.lifetimes r) : ⟨key, lock⟩ ∈ (w.step r).leases := by
  refine mem_note hm ?_
  rintro ptr o rfl hok
  have hc := hok ▸ w.change (.deallocate ptr key lock)
  exact h ⟨ptr, rfl, hc.answer_of_deallocate ▸ hok⟩

theorem mem_leases_grant {w : Watched} {ptr : Word}
    (hg : (w.lifetimes.serve (.allocate ptr)).1 = .ok (some ⟨key, lock⟩)) :
    ⟨key, lock⟩ ∈ (w.step (.allocate ptr)).leases := by
  rw [Watched.leases, Watched.step, hg]
  exact List.mem_cons_self ..

theorem mem_leases_after {w : Watched} (hm : ⟨key, lock⟩ ∈ w.leases)
    (h : ¬Runs.Ever step (Releases key lock) w.lifetimes rs) :
    ⟨key, lock⟩ ∈ (w.after rs).leases := by
  induction rs generalizing w with
  | nil => exact hm
  | cons r rs ih =>
    obtain ⟨hr, hrs⟩ := not_or.mp h
    exact ih (mem_leases_step hm hr) hrs

/-- A live lease was live before or has just been issued. -/
theorem lease_of_mem_note {held : List Holding} {r : Request} {a : Except Violation (Option Lease)}
    {lease : Lease} (hm : lease ∈ (note held r a).map Holding.lease) :
    lease ∈ held.map Holding.lease ∨ ∃ ptr, r = .allocate ptr ∧ a = .ok (some lease) := by
  cases a with
  | error v =>
    rw [note_error] at hm
    exact Or.inl hm
  | ok o =>
    cases r with
    | allocate ptr =>
      cases o with
      | none => exact Or.inl hm
      | some granted =>
        rcases List.mem_cons.mp hm with rfl | hm
        · exact Or.inr ⟨ptr, rfl, rfl⟩
        · exact Or.inl hm
    | deallocate ptr key lock =>
      exact Or.inl ((List.filter_sublist.map Holding.lease).subset hm)
    | relocate old new key =>
      rw [note, leases_move] at hm
      exact Or.inl hm
    | stackAllocate => exact Or.inl hm
    | stackDeallocate key => exact Or.inl hm

/-- As long as the counter does not wrap, no live lease has key zero. -/
theorem key_ne_zero_after {w : Watched} (hp : w.lifetimes.Placed) (hk : w.lifetimes.Keyed)
    (hn : w.lifetimes.nextKey.toNat + w.lifetimes.keysDrawn rs < 2 ^ 64)
    (hlive : ∀ lease ∈ w.leases, lease.key ≠ 0) : ∀ lease ∈ (w.after rs).leases, lease.key ≠ 0 := by
  induction rs generalizing w with
  | nil => exact hlive
  | cons r rs ih =>
    obtain ⟨hp', hk', _, heq⟩ := step_keyed hp hk r rs hn
    rw [← heq] at hn
    refine ih (w := w.step r) hp' hk' hn fun lease hm => ?_
    rcases lease_of_mem_note hm with hm | ⟨ptr, rfl, ha⟩
    · exact hlive lease hm
    · have hgrant := ha ▸ w.change (.allocate ptr)
      have hpos := hk.below (cell?_of_global hp)
      intro hz
      rw [(hgrant.lease_key (Or.inr ⟨ptr, rfl⟩)).1] at hz
      rw [hz] at hpos
      exact absurd hpos (Nat.not_lt_zero _)

variable {lockEntries stackEntries : Nat} {policy : StackLockPolicy} {freeMapEntries : Option Nat}

theorem check_eq_ok_iff_never_released (hsmall : lockEntries ≤ linkEnd)
    (hc : Lifetimes.create host lockEntries policy stackEntries freeMapEntries = .ok l)
    {before rest : List Request} {ptr : Word}
    (hreg : Runs.Always Watched.step Watched.Regular l.watched (before ++ .allocate ptr :: rest))
    (hn : l.keysDrawn (before ++ .allocate ptr :: rest) < 2 ^ 64 - 2)
    (hg : ((l.after before).serve (.allocate ptr)).1 = .ok (some ⟨key, lock⟩)) :
    lock ≠ 0 ∧ ((l.after (before ++ .allocate ptr :: rest)).check key lock = .ok () ↔
      ¬Runs.Ever step (Releases key lock) ((l.after before).step (.allocate ptr)) rest) := by
  have hfirst := toNat_nextKey_create hc
  rw [keysDrawn_append] at hn
  obtain ⟨hp, hk, hcount⟩ := after_keyed (placed_create hc) (keyed_create hc) before (by omega)
  obtain ⟨hp', hk', _, heq⟩ := step_keyed hp hk (.allocate ptr) rest (by omega)
  obtain ⟨hbefore, hnow, hrest⟩ := Runs.always_append.mp hreg
  let w := (l.watched.after before).step (.allocate ptr)
  have hw : w.Settled := ((settled_create hsmall hc).after hbefore).step hnow
  have hm : ⟨key, lock⟩ ∈ w.leases := mem_leases_grant (by rwa [Watched.after_lifetimes])
  have hstart : w.lifetimes = (l.after before).step (.allocate ptr) :=
    congrArg (step · (.allocate ptr)) (l.watched.after_lifetimes before)
  have hsplit : l.after (before ++ .allocate ptr :: rest) = w.lifetimes.after rest := by
    rw [hstart]
    exact l.after_append ..
  refine ⟨hw.lock_ne_zero hm, ?_⟩
  rw [hsplit, ← hstart]
  constructor
  · intro hok hever
    have hgrant := hg ▸ change_step (l.after before) (.allocate ptr)
    have hkey := (hgrant.lease_key (Or.inr ⟨ptr, rfl⟩)).1
    have hz : key ≠ 0 := by
      rintro rfl
      rw [← hkey] at hcount
      simp only [UInt64.toNat_zero] at hcount
      omega
    rw [hstart] at hok hever
    obtain ⟨v, hv⟩ := (gone_of_ever hp' hk' hz (by omega) hever).check lock
    rw [hv] at hok
    cases hok
  · intro hnever
    have hok := (hw.after hrest).check (mem_leases_after hm hnever)
    rwa [Watched.after_lifetimes] at hok

end PointerGuard.Lifetimes
