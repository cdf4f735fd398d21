import PointerGuard.Proofs.Lifetimes.Cells

namespace PointerGuard.Lifetimes

variable {host : Host} {l l' : Lifetimes} {r : Request} {a : Except Violation (Option Lease)}

structure Keyed (l : Lifetimes) : Prop where
  below : ∀ {lock w}, l.cell? lock = some w → w.toNat < l.nextKey.toNat
  apart : ∀ {lock other w}, w ≠ 0 → l.cell? lock = some w → l.cell? other = some w → lock = other

/-- The key was issued, and no lock cell holds it. -/
structure Gone (l : Lifetimes) (key : Word) : Prop where
  ne_zero : key ≠ 0
  below : key.toNat < l.nextKey.toNat
  absent : ∀ lock, l.cell? lock ≠ some key

theorem cell?_create {lockEntries stackEntries : Nat} {policy : StackLockPolicy}
    {freeMapEntries : Option Nat} {lock w : Word}
    (h : Lifetimes.create host lockEntries policy stackEntries freeMapEntries = .ok l)
    (hc : l.cell? lock = some w) : lock = l.global.addr ∧ w = globalKey ∨ w = 0 := by
  obtain ⟨_, hglobal, hheap, _, hstack, _⟩ := Lifetimes.create_eq_ok h
  obtain ⟨hh, _⟩ := LockArena.create_eq_ok hheap
  unfold cell? at hc
  split at hc
  next hg =>
    rw [(createGlobal_eq_ok hglobal).1] at hc
    exact Or.inl ⟨hg, (Option.some.inj hc).symm⟩
  next =>
    refine Or.inr ?_
    cases hi : l.heap.indexOf lock with
    | some i =>
      have hz : l.heap.cells.get i = 0 := by rw [hh, Table.get_empty]
      simpa [LockArena.observe, hi, hz, eq_comm] using hc
    | none =>
      cases hs : l.stack with
      | shared => simp [LockArena.observe, hi, hs, StackLocks.observe] at hc
      | perCall s =>
        have hobs : (s.extent.indexOf lock).map s.cells.get = some w := by
          simpa [LockArena.observe, hi, hs, StackLocks.observe, LockStack.observe] using hc
        obtain ⟨i, _, rfl⟩ := Option.map_eq_some_iff.mp hobs
        rw [(LockStack.create_eq_ok (hstack s hs)).1, Table.get_empty]

theorem toNat_nextKey_create {lockEntries stackEntries : Nat} {policy : StackLockPolicy}
    {freeMapEntries : Option Nat}
    (h : Lifetimes.create host lockEntries policy stackEntries freeMapEntries = .ok l) :
    l.nextKey.toNat = 2 := by
  rw [(Lifetimes.create_eq_ok h).1]
  rfl

theorem keyed_create {lockEntries stackEntries : Nat} {policy : StackLockPolicy}
    {freeMapEntries : Option Nat}
    (h : Lifetimes.create host lockEntries policy stackEntries freeMapEntries = .ok l) : l.Keyed := by
  obtain ⟨hn, _⟩ := Lifetimes.create_eq_ok h
  constructor
  · intro lock w hc
    rw [hn]
    rcases cell?_create h hc with ⟨_, rfl⟩ | rfl <;> decide
  · intro lock other w hw hc ho
    rcases cell?_create h hc with ⟨rfl, _⟩ | rfl
    · rcases cell?_create h ho with ⟨rfl, _⟩ | rfl
      · rfl
      · exact absurd rfl hw
    · exact absurd rfl hw

theorem Change.keyed (hp : l.Placed) (hk : l.Keyed) (h : Change l r a l')
    (hn : l.nextKey.toNat ≤ l'.nextKey.toNat) : l'.Keyed := by
  obtain ⟨spot, w, hw, hcells⟩ := h.cell? hp
  have hfresh : ∀ {lock}, l.cell? lock ≠ some l.nextKey :=
    fun hc => absurd (hk.below hc) (Nat.lt_irrefl _)
  constructor
  · intro lock v hc
    rcases hcells lock with heq | ⟨_, hv⟩
    · exact Nat.lt_of_lt_of_le (hk.below (heq ▸ hc)) hn
    · cases hv.symm.trans hc
      have hpos : globalKey.toNat < l.nextKey.toNat :=
        hk.below (cell?_of_global hp)
      rcases hw with rfl | ⟨rfl, hs⟩
      · exact Nat.lt_of_lt_of_le (Nat.lt_of_le_of_lt (Nat.zero_le _) hpos) hn
      · have hne : l'.nextKey ≠ l.nextKey := by
          rw [hs]
          simp
        have hne' := mt UInt64.toNat_inj.mp hne
        omega
  · intro lock other v hv hc ho
    rcases hcells lock with heq | ⟨rfl, hwv⟩
    · rcases hcells other with heq' | ⟨rfl, hwv⟩
      · exact hk.apart hv (heq ▸ hc) (heq' ▸ ho)
      · cases hwv.symm.trans ho
        rcases hw with rfl | ⟨rfl, _⟩
        · exact absurd rfl hv
        · exact absurd (heq ▸ hc) hfresh
    · cases hwv.symm.trans hc
      rcases hcells other with heq' | ⟨rfl, _⟩
      · rcases hw with rfl | ⟨rfl, _⟩
        · exact absurd rfl hv
        · exact absurd (heq' ▸ ho) hfresh
      · rfl

theorem Change.gone {key : Word} (hp : l.Placed) (hg : l.Gone key) (h : Change l r a l')
    (hn : l.nextKey.toNat ≤ l'.nextKey.toNat) : l'.Gone key := by
  obtain ⟨spot, w, hw, hcells⟩ := h.cell? hp
  refine ⟨hg.ne_zero, Nat.lt_of_lt_of_le hg.below hn, fun lock hc => ?_⟩
  rcases hcells lock with heq | ⟨_, hwv⟩
  · exact hg.absent lock (heq ▸ hc)
  · cases hwv.symm.trans hc
    rcases hw with rfl | ⟨rfl, _⟩
    · exact hg.ne_zero rfl
    · exact absurd hg.below (Nat.lt_irrefl _)

theorem keysDrawn_append (l : Lifetimes) (rs qs : List Request) :
    l.keysDrawn (rs ++ qs) = l.keysDrawn rs + (l.after rs).keysDrawn qs :=
  Runs.tally_append

theorem toNat_nextKey_step (r : Request) (rs : List Request)
    (hn : l.nextKey.toNat + l.keysDrawn (r :: rs) < 2 ^ 64) :
    (l.step r).nextKey.toNat + (l.step r).keysDrawn rs
      = l.nextKey.toNat + l.keysDrawn (r :: rs) := by
  have hdraw : l.keysDrawn (r :: rs)
      = (if (l.step r).nextKey != l.nextKey then 1 else 0) + (l.step r).keysDrawn rs := rfl
  rcases (change_step l r).nextKey with heq | heq
  · simp only [heq, bne_self_eq_false, Bool.false_eq_true, ↓reduceIte] at hdraw ⊢
    omega
  · have hne : l.nextKey + 1 ≠ l.nextKey := by simp
    simp only [heq, bne_iff_ne.mpr hne, ↓reduceIte] at hdraw ⊢
    simp only [UInt64.toNat_add, UInt64.toNat_one]
    omega

theorem step_keyed (hp : l.Placed) (hk : l.Keyed) (r : Request) (rs : List Request)
    (hn : l.nextKey.toNat + l.keysDrawn (r :: rs) < 2 ^ 64) :
    (l.step r).Placed ∧ (l.step r).Keyed ∧ l.nextKey.toNat ≤ (l.step r).nextKey.toNat ∧
      (l.step r).nextKey.toNat + (l.step r).keysDrawn rs
        = l.nextKey.toNat + l.keysDrawn (r :: rs) := by
  have hc := change_step l r
  have hcount := toNat_nextKey_step r rs hn
  have hdraw : (l.step r).keysDrawn rs ≤ l.keysDrawn (r :: rs) := Nat.le_add_left ..
  have hle : l.nextKey.toNat ≤ (l.step r).nextKey.toNat := by omega
  exact ⟨hc.placed hp, hc.keyed hp hk hle, hle, hcount⟩

/-- As long as the counter does not wrap, it counts the keys drawn, and keys stay apart. -/
theorem after_keyed (hp : l.Placed) (hk : l.Keyed) (rs : List Request)
    (hn : l.nextKey.toNat + l.keysDrawn rs < 2 ^ 64) :
    (l.after rs).Placed ∧ (l.after rs).Keyed ∧
      (l.after rs).nextKey.toNat = l.nextKey.toNat + l.keysDrawn rs := by
  induction rs generalizing l with
  | nil => exact ⟨hp, hk, rfl⟩
  | cons r rs ih =>
    obtain ⟨hp', hk', _, heq⟩ := step_keyed hp hk r rs hn
    rw [← heq] at hn ⊢
    exact ih hp' hk' hn

theorem after_gone {key : Word} (hp : l.Placed) (hk : l.Keyed) (hg : l.Gone key)
    (rs : List Request) (hn : l.nextKey.toNat + l.keysDrawn rs < 2 ^ 64) :
    (l.after rs).Gone key := by
  induction rs generalizing l with
  | nil => exact hg
  | cons r rs ih =>
    obtain ⟨hp', hk', hle, heq⟩ := step_keyed hp hk r rs hn
    rw [← heq] at hn
    exact ih hp' hk' ((change_step l r).gone hp hg hle) hn

theorem Gone.check {key : Word} (h : l.Gone key) (lock : Word) :
    ∃ v, l.check key lock = .error v := by
  cases hc : l.check key lock with
  | error v => exact ⟨v, rfl⟩
  | ok u => exact absurd (check_eq_ok_iff.mp hc) (h.absent lock)

theorem gone_of_clear {spot key : Word} (hk : l.Keyed) (hz : key ≠ 0)
    (hold : l.cell? spot = some key) (hclear : l'.cell? spot = some 0)
    (hkeep : ∀ lock, l'.cell? lock = l.cell? lock ∨ lock = spot ∧ l'.cell? lock = some 0)
    (hn : l'.nextKey = l.nextKey) : l'.Gone key := by
  refine ⟨hz, hn ▸ hk.below hold, fun lock hc => ?_⟩
  rcases hkeep lock with heq | ⟨_, hzero⟩
  · have hspot := hk.apart hz (heq ▸ hc) hold
    rw [hspot, hclear] at hc
    exact hz (Option.some.inj hc).symm
  · rw [hzero] at hc
    exact hz (Option.some.inj hc).symm

/-- A release clears the lock cell. -/
theorem Change.cell?_of_deallocate {ptr key lock : Word} {o : Option Lease} (hp : l.Placed)
    (h : Change l (.deallocate ptr key lock) (.ok o) l') : l'.cell? lock = some 0 := by
  have hp' := h.placed hp
  cases h with
  | released hi _ _ => exact cell?_of_heap hp' (LockArena.observe_release hi)

theorem Change.gone_of_deallocate {ptr key lock : Word} {o : Option Lease} (hp : l.Placed)
    (hk : l.Keyed) (h : Change l (.deallocate ptr key lock) (.ok o) l') (hz : key ≠ 0) :
    l'.Gone key := by
  have hclear := h.cell?_of_deallocate hp
  cases h with
  | released hi hc _ =>
    have hold := cell?_of_heap hp (Option.map_eq_some_iff.mpr ⟨_, hi, hc⟩)
    obtain ⟨_, rfl⟩ := (Extent.indexOf_eq_some_iff hp.heap_fits).mp hi
    exact gone_of_clear hk hz hold hclear (cell?_of_set hp rfl rfl rfl rfl) rfl

theorem Change.gone_of_stackDeallocate {key : Word} {o : Option Lease} (hp : l.Placed)
    (hk : l.Keyed) (h : Change l (.stackDeallocate key) (.ok o) l')
    (hs : l.stack.policy = .perCall) (hz : key ≠ 0) : l'.Gone key := by
  have hp' := h.placed hp
  cases h with
  | ignored hshared => simp [hshared, StackLocks.policy] at hs
  | @popped _ s hs htop hkey =>
    have hold := cell?_of_stack hp hs (hp.indexOf_newest hs htop)
    rw [hkey] at hold
    exact gone_of_clear hk hz hold (cell?_of_takeBack hp rfl rfl hs rfl htop)
      (cell?_of_stackSet hp hp' rfl rfl hs rfl rfl rfl) rfl

theorem Change.policy (h : Change l r a l') : l'.stack.policy = l.stack.policy := by
  cases h with
  | pushed hs _ => rw [hs]; rfl
  | popped hs _ _ => rw [hs]; rfl
  | _ => rfl

theorem after_policy (l : Lifetimes) (rs : List Request) :
    (l.after rs).stack.policy = l.stack.policy :=
  Runs.foldl_invariant (I := fun k => k.stack.policy = l.stack.policy)
    (fun k r hk => (change_step k r).policy.trans hk) rs rfl

/-- A lease issued on request is for the key that the counter shows, which moves on. -/
theorem Change.lease_key {lease : Lease} (hl : l.stack.policy = .perCall ∨ ∃ ptr, r = .allocate ptr)
    (h : Change l r (.ok (some lease)) l') :
    lease.key = l.nextKey ∧ l'.nextKey = l.nextKey + 1 := by
  cases h with
  | granted => exact ⟨rfl, rfl⟩
  | shared hs => simp [hs, StackLocks.policy] at hl
  | pushed => exact ⟨rfl, rfl⟩

theorem Change.ne_zero_of_allocate {ptr : Word} {o : Option Lease}
    (h : Change l (.allocate ptr) (.ok o) l') : ptr ≠ 0 := by
  cases h with
  | granted hp _ _ => exact hp

/-- A revoked lease fails every later check, whatever is requested before, between and after, and
however often its lock cell is given out again. -/
theorem check_fails_after_revocation {lockEntries stackEntries : Nat} {policy : StackLockPolicy}
    {freeMapEntries : Option Nat} {key lock : Word} {before between later : List Request}
    {grant release : Request}
    (hc : Lifetimes.create host lockEntries policy stackEntries freeMapEntries = .ok l)
    (hn : l.keysDrawn (before ++ grant :: between ++ release :: later) < 2 ^ 64 - 2)
    (hg : ((l.after before).serve grant).1 = .ok (some ⟨key, lock⟩))
    (hr : ((l.after (before ++ grant :: between)).serve release).1 = .ok none)
    (hpair : (∃ ptr ptr', grant = .allocate ptr ∧ release = .deallocate ptr' key lock) ∨
      policy = .perCall ∧ grant = .stackAllocate ∧ release = .stackDeallocate key) :
    ∃ v, (l.after (before ++ grant :: between ++ release :: later)).check key lock
      = .error v := by
  obtain ⟨_, _, _, hpolicy, _⟩ := Lifetimes.create_eq_ok hc
  have hfirst := toNat_nextKey_create hc
  have hp := placed_create hc
  have hk := keyed_create hc
  rw [keysDrawn_append] at hn
  obtain ⟨hp', hk', hcount⟩ := after_keyed hp hk (before ++ grant :: between) (by omega)
  rw [keysDrawn_append] at hn hcount
  obtain ⟨_, _, hkey⟩ := after_keyed hp hk before (by omega)
  have hgrant := hg ▸ change_step (l.after before) grant
  have hrelease := hr ▸ change_step (l.after (before ++ grant :: between)) release
  have hlease : key = (l.after before).nextKey := by
    rcases hpair with ⟨ptr, _, rfl, _⟩ | ⟨hpol, rfl, _⟩
    · exact (hgrant.lease_key (Or.inr ⟨ptr, rfl⟩)).1
    · exact (hgrant.lease_key (Or.inl ((after_policy l _).trans (hpolicy.trans hpol)))).1
  have hz : key ≠ 0 := by
    intro h
    rw [← hlease, h] at hkey
    simp only [UInt64.toNat_zero] at hkey
    omega
  have hgone : ((l.after (before ++ grant :: between)).step release).Gone key := by
    rcases hpair with ⟨_, ptr', _, rfl⟩ | ⟨hpol, _, rfl⟩
    · exact hrelease.gone_of_deallocate hp' hk' hz
    · exact hrelease.gone_of_stackDeallocate hp' hk'
        ((after_policy l _).trans (hpolicy.trans hpol)) hz
  obtain ⟨hp₃, hk₃, _, heq⟩ := step_keyed hp' hk' release later (by omega)
  rw [after_append]
  exact (after_gone hp₃ hk₃ hgone later (by omega)).check lock

/-- The cell of a released object goes to the next one, and the old lease fails. -/
theorem check_fails_after_reuse :
    ∃ l, Lifetimes.create .standard 8 .perCall 4 (some 8) = .ok l ∧
      l.keysDrawn ([Request.stackAllocate] ++ Request.allocate 0x1000 ::
        [Request.deallocate 0x1000 2 heapLocksAddr] ++
          Request.deallocate 0x1000 3 heapLocksAddr :: [Request.allocate 0x2000]) < 2 ^ 64 - 2 ∧
      ((l.after [.stackAllocate]).serve (.allocate 0x1000)).1 = .ok (some ⟨3, heapLocksAddr⟩) ∧
      ((l.after ([Request.stackAllocate] ++ Request.allocate 0x1000 ::
        [Request.deallocate 0x1000 2 heapLocksAddr])).serve
          (.deallocate 0x1000 3 heapLocksAddr)).1 = .ok none ∧
      ∃ v, (l.after ([Request.stackAllocate] ++ Request.allocate 0x1000 ::
        [Request.deallocate 0x1000 2 heapLocksAddr] ++
          Request.deallocate 0x1000 3 heapLocksAddr :: [Request.allocate 0x2000])).check 3
            heapLocksAddr = .error v := by
  have hc : Lifetimes.create .standard 8 .perCall 4 (some 8) = .ok _ := rfl
  exact ⟨_, hc, by decide, rfl, rfl, check_fails_after_revocation hc (by decide) rfl rfl
    (Or.inl ⟨0x1000, 0x1000, rfl, rfl⟩)⟩

end PointerGuard.Lifetimes
