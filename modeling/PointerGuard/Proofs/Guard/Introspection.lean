import PointerGuard.Proofs.Guard.Dereference
import PointerGuard.Proofs.Lifetimes.StackOrder

namespace PointerGuard

variable {host : Host}

theorem Lifetimes.Placed.cell?_zero {l : Lifetimes} (h : l.Placed) : l.cell? 0 = none := by
  rw [cell?_eq_search]
  refine h.apart.search_eq_none fun t ht hcell => ?_
  obtain ⟨i, hi⟩ := (Extent.hasCell_iff (h.apart.fits t ht)).mp hcell
  have hbase : t.extent.base ≠ 0 := h.based _ (List.mem_map_of_mem ht)
  have hbelow : (0 : Word).toNat < t.extent.base.toNat :=
    Nat.pos_of_ne_zero fun hz => hbase (UInt64.toNat_inj.mp hz)
  cases (Extent.indexOf_eq_none_of_lt hbelow).symm.trans hi

namespace Guard

variable {mode : Mode} {g : Guard mode} {ptr width : Word} {e : Metadata}

theorem checkTemporal_eq_ok_iff_observed (hl : g.lifetimes.isSome = true) {key lock : Word} :
    ((checkTemporal key lock).run g).1 = .ok () ↔
      lock = 0 ∧ g.config.leniency.ignoreMissing = true ∨ g.observed lock = some key := by
  obtain ⟨l, hl⟩ := Option.isSome_iff_exists.mp hl
  rw [checkTemporal_eq_ok_iff hl, Lifetimes.check_eq_ok_iff, observed_of_some hl]

/-- The checks that the mode carries pass one by one. -/
theorem checkDereference_eq_ok_iff (hl : mode.tracksLifetime = true → g.lifetimes.isSome = true) :
    ((checkDereference ptr width e).run g).1 = .ok () ↔
      (mode.tracksBounds = true →
        spatialCheck g.config.leniency ptr width e.base e.bound = .ok ()) ∧
      (mode.tracksLifetime = true → e.lock = 0 ∧ g.config.leniency.ignoreMissing = true ∨
        g.observed e.lock = some e.key) := by
  rw [checkDereference_passes_iff]
  exact and_congr_right fun _ => forall_congr' fun ht => checkTemporal_eq_ok_iff_observed (hl ht)

theorem inBounds_introspect_iff (slot : Option Nat) :
    (g.introspect ptr e slot).inBounds ≠ some false ↔ (mode.tracksBounds = true →
      spatialCheck g.config.leniency ptr 1 e.base e.bound = .ok ()) := by
  cases mode with
  | temporal => simp [introspect, Mode.tracksBounds]
  | _ =>
    show some (spatialCheck g.config.leniency ptr 1 e.base e.bound).isOk ≠ some false ↔ _
    cases spatialCheck g.config.leniency ptr 1 e.base e.bound <;>
      simp [Except.isOk, Except.toBool, Mode.tracksBounds]

theorem alive_introspect_iff (slot : Option Nat) :
    (g.introspect ptr e slot).alive ≠ some false ↔
      (mode.tracksLifetime = true → g.observed e.lock = some e.key) := by
  cases mode with
  | spatial => simp [introspect, Mode.tracksLifetime]
  | _ =>
    show some (decide (g.observed e.lock = some e.key)) ≠ some false ↔ _
    simp [Mode.tracksLifetime]

theorem isValid_introspect_iff (slot : Option Nat) :
    (g.introspect ptr e slot).isValid = true ↔
      (g.introspect ptr e slot).inBounds ≠ some false ∧
        (g.introspect ptr e slot).alive ≠ some false :=
  decide_eq_true_iff

/-- A guard has lifetimes if its mode tracks them, and zero is the address of none of their cells.
-/
theorem lifetimes_of_create {config : Config} (hc : Guard.create host config = .ok g)
    (ops : List Operation) (ht : mode.tracksLifetime = true) :
    (g.after ops).lifetimes.isSome = true ∧ (g.after ops).observed 0 = none := by
  obtain ⟨_, _, hlife⟩ := create_eq_ok hc
  obtain ⟨l, hl, hlc⟩ := hlife ht
  have hplaced := Lifetimes.placed_after (Lifetimes.placed_create hlc) (g.requestsOf ops)
  have hafter := lifetimes_after hl ops
  rw [observed_of_some hafter, hafter]
  exact ⟨rfl, hplaced.cell?_zero⟩

/-- An introspection tells whether a check of one byte would pass, except for metadata with no lock
where missing metadata is ignored. -/
theorem introspect_predicts_check_unless_missing {config : Config}
    (hc : Guard.create host config = .ok g) (ops : List Operation) (ptr : Word) (e : Metadata)
    (slot : Option Nat) :
    let g' := g.after ops
    let missing :=
      mode.tracksLifetime = true ∧ config.leniency.ignoreMissing = true ∧ e.lock = 0
    ((g'.introspect ptr e slot).isValid = true ↔
      ((checkDereference ptr 1 e).run g').1 = .ok () ∧ ¬missing) ∧
    (missing → (((checkDereference ptr 1 e).run g').1 = .ok () ↔
      (g'.introspect ptr e slot).inBounds ≠ some false)) ∧
    (perform (.introspect ptr e slot)).run g'
      = (.ok (.introspection (g'.introspect ptr e slot)), g') := by
  intro g' missing
  have hlife := lifetimes_of_create hc ops
  have hconfig : g'.config = config := (config_after g ops).trans (config_create hc)
  have hcheck : ((checkDereference ptr 1 e).run g').1 = .ok () ↔ _ :=
    checkDereference_eq_ok_iff fun ht => (hlife ht).1
  rw [isValid_introspect_iff, hcheck, inBounds_introspect_iff, alive_introspect_iff, hconfig]
  refine ⟨⟨?_, ?_⟩, ?_, rfl⟩
  · rintro ⟨hbounds, halive⟩
    refine ⟨⟨hbounds, fun ht => Or.inr (halive ht)⟩, ?_⟩
    rintro ⟨ht, _, hlock⟩
    -- No cell has the address zero, so none was seen to hold the key.
    have hcell := halive ht
    rw [hlock, (hlife ht).2] at hcell
    cases hcell
  · rintro ⟨⟨hbounds, hpass⟩, hkept⟩
    refine ⟨hbounds, fun ht => (hpass ht).resolve_left ?_⟩
    rintro ⟨hlock, hignore⟩
    exact hkept ⟨ht, hignore, hlock⟩
  · rintro ⟨_, hignore, hlock⟩
    exact ⟨fun h => h.1, fun h => ⟨h, fun _ => Or.inl ⟨hlock, hignore⟩⟩⟩

/-- An object is found alive by its own metadata, and dead by metadata that was lost on the way. -/
theorem introspect_predicts_check_of_lost_metadata :
    ∃ g : Guard .combined,
      Guard.create .standard { Config.compact with leniency := { ignoreMissing := true } } = .ok g ∧
      let g' := g.after [.allocateObject 0x1000 16]
      (g'.introspect 0x1008 ⟨0x1000, 0x1010, 2, heapLocksAddr⟩ none).isValid = true ∧
      (g'.introspect 0x1008 ⟨0x1000, 0x1010, 0, 0⟩ none).isValid = false ∧
      ((checkDereference 0x1008 1 ⟨0x1000, 0x1010, 0, 0⟩).run g').1 = .ok () := by
  obtain ⟨g, hc, hpass, hinside⟩ : ∃ g : Guard .combined,
      Guard.create .standard { Config.compact with leniency := { ignoreMissing := true } } = .ok g ∧
      ((checkDereference 0x1008 1 ⟨0x1000, 0x1010, 2, heapLocksAddr⟩).run
        (g.after [.allocateObject 0x1000 16])).1 = .ok () ∧
      ((g.after [.allocateObject 0x1000 16]).introspect 0x1008 ⟨0x1000, 0x1010, 0, 0⟩ none).inBounds
        = some true :=
    ⟨_, rfl, rfl, rfl⟩
  have hown := introspect_predicts_check_unless_missing hc [.allocateObject 0x1000 16] 0x1008
    ⟨0x1000, 0x1010, 2, heapLocksAddr⟩ none
  have hlost := introspect_predicts_check_unless_missing hc [.allocateObject 0x1000 16] 0x1008
    ⟨0x1000, 0x1010, 0, 0⟩ none
  refine ⟨g, hc, hown.1.mpr ⟨hpass, fun hmissing => ?_⟩, ?_, ?_⟩
  · exact absurd hmissing.2.2 (by decide)
  · rw [← Bool.not_eq_true, hlost.1]
    exact fun h => h.2 ⟨rfl, rfl, rfl⟩
  · refine (hlost.2.1 ⟨rfl, rfl, rfl⟩).mpr ?_
    rw [hinside]
    decide

/-- Where missing metadata is ignored, the check of an access through a pointer that nothing is
known of passes, and the introspection says that it would not. -/
theorem introspect_reports_missing_as_dead :
    ∃ g : Guard .combined,
      Guard.create .standard { Config.compact with leniency := { ignoreMissing := true } } = .ok g ∧
      ((checkDereference 0x1000 1 .unknown).run g).1 = .ok () ∧
      (g.introspect 0x1000 .unknown none).isValid = false :=
  ⟨_, rfl, rfl, rfl⟩

end Guard

end PointerGuard
