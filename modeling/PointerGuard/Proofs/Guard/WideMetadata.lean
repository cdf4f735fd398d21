import PointerGuard.Proofs.Guard.Introspection

namespace PointerGuard.Guard

variable {host : Host} {mode : Mode} {g g' : Guard mode}

/-- The cell that holds the global key, where lifetimes are tracked. -/
def globalCell (g : Guard mode) : Option LockCell := g.lifetimes.map Lifetimes.global

theorem globalLock_eq (g : Guard mode) : g.globalLock = g.globalCell.elim 0 LockCell.addr := by
  rw [globalLock, globalCell]
  cases g.lifetimes <;> rfl

/-- No operation writes the global cell. -/
theorem globalCell_step (g : Guard mode) (op : Operation) :
    (g.step op).globalCell = g.globalCell := by
  rw [step, globalCell, (effect_perform op g).lifetimes, Option.map_map]
  exact congrArg (g.lifetimes.map ·) (funext fun l => l.global_after _)

theorem globalCell_after (g : Guard mode) (ops : List Operation) :
    (g.after ops).globalCell = g.globalCell :=
  Runs.foldl_invariant (I := fun g' : Guard mode => g'.globalCell = g.globalCell)
    (fun g' op h => (g'.globalCell_step op).trans h) ops rfl

theorem placed_lifetimes_after {config : Config} (hc : Guard.create host config = .ok g)
    (ops : List Operation) {l : Lifetimes} (hl : (g.after ops).lifetimes = some l) :
    l.Placed := by
  cases hfirst : g.lifetimes with
  | none =>
    have hcell := g.globalCell_after ops
    rw [globalCell, globalCell, hl, hfirst] at hcell
    cases hcell
  | some first =>
    cases (lifetimes_after hfirst ops).symm.trans hl
    exact Lifetimes.placed_after (Lifetimes.placed_create (lifetimes_create hc hfirst)) _

theorem checkTemporal_global (hp : ∀ l, g'.lifetimes = some l → l.Placed)
    (h : g'.globalCell = g.globalCell) :
    ((checkTemporal globalKey g.globalLock).run g').1 = .ok () := by
  rw [g.globalLock_eq, ← h, ← g'.globalLock_eq]
  cases hl : g'.lifetimes with
  | none =>
    show ite _ _ _ = _
    rw [hl]
    exact ite_self _
  | some l =>
    have hlock : g'.globalLock = l.global.addr := by rw [globalLock, hl]; rfl
    rw [hlock, checkTemporal_eq_ok_iff hl]
    exact Or.inr (Lifetimes.check_eq_ok_iff.mpr (Lifetimes.cell?_of_global (hp l hl)))

theorem wideMetadata_bounds (hb : mode.tracksBounds = true) :
    g.wideMetadata.base = 0 ∧ g.wideMetadata.bound = wideBound := by
  cases mode with
  | temporal => cases hb
  | _ => exact ⟨rfl, rfl⟩

theorem wideMetadata_lease (ht : mode.tracksLifetime = true) :
    g.wideMetadata.key = globalKey ∧ g.wideMetadata.lock = g.globalLock := by
  cases mode with
  | spatial => cases ht
  | _ => exact ⟨rfl, rfl⟩

theorem checkDereference_wide (hp : ∀ l, g'.lifetimes = some l → l.Placed)
    (h : g'.globalCell = g.globalCell) {ptr width : Word}
    (hfit : ptr.toNat + width.toNat ≤ wideBound.toNat) :
    ((checkDereference ptr width g.wideMetadata).run g').1 = .ok () := by
  refine checkDereference_passes_iff.mpr ⟨fun hb => ?_, fun ht => ?_⟩
  · obtain ⟨hbase, hbound⟩ := wideMetadata_bounds (g := g) hb
    rw [hbase, hbound]
    exact spatialCheck_passes_iff.mpr (.inl ((inBounds_of_no_base rfl).mpr hfit))
  · obtain ⟨hkey, hlock⟩ := wideMetadata_lease (g := g) ht
    rw [hkey, hlock]
    exact checkTemporal_global hp h

theorem checkCall_eq (ptr : Word) (e : Metadata) : ((checkCall ptr e).run g).1 =
    if mode.tracksBounds = true then callCheck g.config.leniency ptr e.base e.bound else .ok () := by
  cases mode <;> rfl

/-- Wide bounds are those of no function. -/
theorem callCheck_wide (lenient : Leniency) (ptr : Word) : callCheck lenient ptr 0 wideBound =
    if lenient.ignoreMissing = true then .ok () else .error (.invalidCallTarget ptr 0 wideBound) := by
  have hbounds : (0 : Word) ≠ wideBound := by decide
  simp [callCheck, hbounds]

/-- The global lock is the cell of no heap object, so that it is not released as one. -/
theorem deallocate_global {l : Lifetimes} (hl : g.lifetimes = some l) (hp : l.Placed)
    (ptr key : Word) : (perform (.deallocate ptr key g.globalLock)).run g
      = (.error (.unknownLock key g.globalLock), g) := by
  have hlock : g.globalLock = l.global.addr := by rw [globalLock, hl]; rfl
  refine perform_deallocate_of_error hl ?_
  rw [hlock, Lifetimes.deallocate, hp.indexOf_global]

/-- Wide metadata pass the check of every access up to their bound, for ever, but no check of a call
where bounds are tracked. -/
theorem wideMetadata_pass_accesses_for_ever {config : Config} (hc : Guard.create host config = .ok g)
    (before later : List Operation) :
    let made := g.after before
    let g' := g.after (before ++ later)
    (∀ ptr width : Word, ptr.toNat + width.toNat ≤ 2 ^ 63 - 1 →
      ((checkDereference ptr width made.wideMetadata).run g').1 = .ok ()) ∧
    (∀ ptr, ((checkCall ptr made.wideMetadata).run g').1 =
      if mode.tracksBounds = true ∧ config.leniency.ignoreMissing = false then
        .error (.invalidCallTarget ptr 0 wideBound)
      else .ok ()) ∧
    ((checkTemporal globalKey made.globalLock).run g').1 = .ok () ∧
    (mode.tracksLifetime = true → ∀ ptr key,
      (perform (.deallocate ptr key made.globalLock)).run g'
        = (.error (.unknownLock key made.globalLock), g')) := by
  intro made g'
  have hcell : g'.globalCell = made.globalCell := by rw [globalCell_after, globalCell_after]
  have hp : ∀ l, g'.lifetimes = some l → l.Placed :=
    fun l hl => placed_lifetimes_after hc (before ++ later) hl
  refine ⟨fun ptr width hfit => checkDereference_wide hp hcell hfit, fun ptr => ?_,
    checkTemporal_global hp hcell, fun ht ptr key => ?_⟩
  · have hconfig : g'.config = config := (config_after g _).trans (config_create hc)
    rw [checkCall_eq, hconfig]
    by_cases hb : mode.tracksBounds = true
    · obtain ⟨hbase, hbound⟩ := wideMetadata_bounds (g := made) hb
      rw [if_pos hb, hbase, hbound, callCheck_wide]
      cases config.leniency.ignoreMissing <;> simp [hb]
    · rw [if_neg hb, if_neg fun h => hb h.1]
  · obtain ⟨_, _, hlife⟩ := create_eq_ok hc
    obtain ⟨l, hl, _⟩ := hlife ht
    have hafter := lifetimes_after hl (before ++ later)
    rw [made.globalLock_eq, ← hcell, ← g'.globalLock_eq]
    exact deallocate_global hafter (hp _ hafter) ptr key

/-- The global lock and key are named in releases, as are those of an object; the wide metadata that
were made before still pass, up to their bound. -/
theorem wideMetadata_pass_accesses_after_releases :
    ∃ g : Guard .combined, Guard.create .standard Config.compact = .ok g ∧
      let g' := g.after ([.allocate 0x1000] ++ [.deallocate 0x1000 1 globalLockAddr,
        .deallocate 0x1000 2 heapLocksAddr, .stackDeallocate 1])
      ((checkDereference 0x7ffffffffffffff8 7
        (g.after [.allocate 0x1000]).wideMetadata).run g').1 = .ok () ∧
      ((checkDereference 0x1000 1 ⟨0x1000, 0x1010, 2, heapLocksAddr⟩).run g').1 ≠ .ok () := by
  obtain ⟨g, hc, hdead⟩ : ∃ g : Guard .combined, Guard.create .standard Config.compact = .ok g ∧
      ((checkDereference 0x1000 1 ⟨0x1000, 0x1010, 2, heapLocksAddr⟩).run
        (g.after ([.allocate 0x1000] ++ [.deallocate 0x1000 1 globalLockAddr,
          .deallocate 0x1000 2 heapLocksAddr, .stackDeallocate 1]))).1 ≠ .ok () :=
    ⟨_, rfl, by decide⟩
  exact ⟨g, hc, (wideMetadata_pass_accesses_for_ever hc _ _).1 _ _ (by decide), hdead⟩

/-- A call through wide metadata is refused in the initial state. -/
theorem wideMetadata_refused_by_call :
    ∃ g : Guard .combined, Guard.create .standard Config.compact = .ok g ∧
      (0x4000 : Word).toNat ≤ 2 ^ 63 - 1 ∧
      ((checkCall 0x4000 g.wideMetadata).run g).1
        = .error (.invalidCallTarget 0x4000 0 wideBound) :=
  ⟨_, rfl, by decide, rfl⟩

end PointerGuard.Guard
