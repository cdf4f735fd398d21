import PointerGuard.Proofs.Bounds.Narrowing
import PointerGuard.Proofs.Guard.Requests

namespace PointerGuard.Guard

variable {host : Host} {g : Guard .combined} {l : Lifetimes}

theorem quiet_eq_ok_iff {mode : Mode} {g : Guard mode} {act : Guarded mode Unit} :
    ((quiet act).run g).1 = .ok .done ↔ (act.run g).1 = .ok () := by
  rw [quiet, Action.run_bind_eq_ok_iff]
  constructor
  · rintro ⟨_, h, _⟩
    exact h
  · intro h
    exact ⟨(), h, rfl⟩

theorem checkTemporal_eq_ok_iff {mode : Mode} {g : Guard mode} (hl : g.lifetimes = some l)
    {key lock : Word} :
    ((checkTemporal key lock).run g).1 = .ok () ↔
      lock = 0 ∧ g.config.leniency.ignoreMissing = true ∨ l.check key lock = .ok () := by
  have hrun : ((checkTemporal key lock).run g).1
      = if lock = 0 ∧ g.config.leniency.ignoreMissing = true then .ok () else l.check key lock := by
    show ite _ _ _ = _
    rw [hl]
  rw [hrun]
  by_cases hm : lock = 0 ∧ g.config.leniency.ignoreMissing = true
  · rw [if_pos hm]
    exact iff_of_true rfl (Or.inl hm)
  · rw [if_neg hm]
    exact ⟨Or.inr, fun h => h.resolve_left hm⟩

/-- What the lock cell at an address holds, if there is one. -/
def observed {mode : Mode} (g : Guard mode) (lock : Word) : Option Word :=
  g.lifetimes.bind (·.cell? lock)

theorem observed_of_some {mode : Mode} {g : Guard mode} (hl : g.lifetimes = some l) (lock : Word) :
    g.observed lock = l.cell? lock := by
  rw [observed, hl]
  rfl

theorem checkTemporal_congr {mode : Mode} {g g' : Guard mode} (hc : g'.config = g.config)
    (hl : g'.lifetimes = g.lifetimes) (key lock : Word) :
    ((checkTemporal key lock).run g').1 = ((checkTemporal key lock).run g).1 := by
  show ite _ _ _ = ite _ _ _
  rw [hc, hl]

/-- The bounds are checked first, and do not matter to the check of the lifetime. -/
theorem checkDereference_passes_iff {mode : Mode} {g : Guard mode} {ptr width : Word}
    {e : Metadata} : ((checkDereference ptr width e).run g).1 = .ok () ↔
    (mode.tracksBounds = true →
      spatialCheck g.config.leniency ptr width e.base e.bound = .ok ()) ∧
    (mode.tracksLifetime = true → ((checkTemporal e.key e.lock).run g).1 = .ok ()) := by
  have hrest (g' : Guard mode) (hc : g'.config = g.config) (hl : g'.lifetimes = g.lifetimes) :
      ((if mode.tracksLifetime = true then checkTemporal e.key e.lock else pure () :
          Guarded mode Unit).run g').1 = .ok () ↔
        (mode.tracksLifetime = true → ((checkTemporal e.key e.lock).run g).1 = .ok ()) := by
    by_cases ht : mode.tracksLifetime = true
    · rw [if_pos ht, checkTemporal_congr hc hl]
      exact ⟨fun h _ => h, fun h => h ht⟩
    · rw [if_neg ht]
      exact iff_of_true rfl fun h => absurd h ht
  unfold checkDereference
  by_cases hb : mode.tracksBounds = true
  · simp only [if_pos hb]
    have htail := hrest ((checkSpatial ptr width e.base e.bound).run g).2 rfl rfl
    rw [Action.run_bind_eq_ok_iff]
    constructor
    · rintro ⟨_, hs, ht⟩
      exact ⟨fun _ => hs, htail.mp ht⟩
    · rintro ⟨hs, ht⟩
      exact ⟨(), hs hb, htail.mpr ht⟩
  · simp only [if_neg hb]
    rw [hrest g rfl rfl]
    exact ⟨fun h => ⟨fun h' => absurd h' hb, h⟩, fun h => h.2⟩

theorem checkDereferenceVia_eq_ok_iff (hl : g.lifetimes = some l) {w ptr width : Word}
    {e : Metadata} (he : g.trie.load w = e) :
    ((perform (.checkDereferenceVia w ptr width)).run g).1 = .ok .done ↔
      spatialCheck g.config.leniency ptr width e.base e.bound = .ok () ∧
        (e.lock = 0 ∧ g.config.leniency.ignoreMissing = true ∨ l.check e.key e.lock = .ok ()) := by
  subst he
  rw [perform, quiet_eq_ok_iff]
  have hload : (loadMetadata w).run g = (.ok (g.trie.load w), _) := rfl
  rw [checkDereferenceVia, Action.run_bind_of_ok hload]
  show ((checkSpatial ptr width _ _ >>= fun _ => checkTemporal _ _).run _).1 = _ ↔ _
  rw [Action.run_bind_eq_ok_iff]
  constructor
  · rintro ⟨_, hs, ht⟩
    exact ⟨hs, (checkTemporal_eq_ok_iff (by exact hl)).mp ht⟩
  · rintro ⟨hs, ht⟩
    exact ⟨(), hs, (checkTemporal_eq_ok_iff (by exact hl)).mpr ht⟩

theorem serve_allocate_eq_ok {ptr : Word} {lease : Lease} (h : (l.allocate ptr).1 = .ok lease) :
    (l.serve (.allocate ptr)).1 = .ok (some lease) := by
  rw [Lifetimes.serve]
  split
  next ha =>
    rw [ha] at h
    cases h
    rfl
  next ha =>
    rw [ha] at h
    cases h

theorem orFail_eq_ok {ε σ α : Type} {e : ε} {o : Option α} {s : σ} {a : α}
    (h : ((Action.orFail e o).run s).1 = .ok a) : o = some a := by
  cases o with
  | none => cases h
  | some b =>
    cases h
    rfl

theorem checkedAdd_eq_some_iff {a b c : Word} :
    checkedAdd a b = some c ↔ a.toNat + b.toNat < 2 ^ 64 ∧ c = a + b := by
  unfold checkedAdd
  split
  next h => exact ⟨fun hc => ⟨h, (Option.some.inj hc).symm⟩, fun hc => congrArg some hc.2.symm⟩
  next h => exact iff_of_false (fun hc => by cases hc) fun hc => h hc.1

theorem run_allocate_of_ok {mode : Mode} {g : Guard mode} (hl : g.lifetimes = some l) {ptr : Word}
    (ht : (g.trie.preallocate ptr).1 = .ok ()) :
    (allocate ptr).run g = ((l.allocate ptr).1, { g with
      trie := (g.trie.preallocate ptr).2
      lifetimes := some (l.allocate ptr).2
      metrics := g.metrics.bump .heapAllocations }) := by
  rw [allocate, Action.run_bind_of_ok (run_preallocate_of_fst ht),
    Action.run_bind_of_ok (run_count ..)]
  exact run_onLifetimes (by exact hl) default (·.allocate ptr)

theorem run_allocate_of_error {mode : Mode} {g : Guard mode} {ptr : Word} {v : Violation}
    (ht : (g.trie.preallocate ptr).1 = .error v) :
    (allocate ptr).run g = (.error v, { g with trie := (g.trie.preallocate ptr).2 }) := by
  rw [allocate, Action.run_bind_of_error (run_preallocate_of_fst ht)]

/-- An answered allocation found its segment, and answers what the lifetimes answered. -/
theorem allocate_eq_ok (hl : g.lifetimes = some l) {ptr : Word} {lease : Lease}
    (h : ((allocate ptr).run g).1 = .ok lease) :
    g.requests (.allocate ptr) = [.allocate ptr] ∧
      (l.serve (.allocate ptr)).1 = .ok (some lease) := by
  cases hpre : (g.trie.preallocate ptr).1 with
  | error v =>
    rw [run_allocate_of_error hpre] at h
    cases h
  | ok _ =>
    rw [run_allocate_of_ok hl hpre] at h
    have hrequests : g.requests (.allocate ptr) = [.allocate ptr] := by
      rw [requests_allocate, hpre]
      rfl
    exact ⟨hrequests, serve_allocate_eq_ok h⟩

theorem allocateObject_eq_ok (hl : g.lifetimes = some l) {ptr size : Word} {m : Metadata}
    (h : ((perform (.allocateObject ptr size)).run g).1 = .ok (.entry m)) :
    g.requests (.allocateObject ptr size) = [.allocate ptr] ∧
      (l.serve (.allocate ptr)).1 = .ok (some ⟨m.key, m.lock⟩) ∧
      m.base = ptr ∧ m.bound.toNat = ptr.toNat + size.toNat := by
  obtain ⟨e, hobject, heq⟩ := Action.run_bind_eq_ok_iff.mp h
  cases heq
  obtain ⟨lease, hlease, hrest⟩ := Action.run_bind_eq_ok_iff.mp hobject
  obtain ⟨bound, hbound, heq⟩ := Action.run_bind_eq_ok_iff.mp hrest
  cases heq
  obtain ⟨hrequests, hserve⟩ := allocate_eq_ok hl hlease
  exact ⟨hrequests, hserve, rfl, toNat_of_checkedAdd (orFail_eq_ok hbound)⟩

theorem run_storeMetadata_of_ok {mode : Mode} {g : Guard mode} {w : Word} {m : Metadata}
    {t : Trie mode} (h : g.trie.store w m = .ok t) : (storeMetadata w m).run g
      = (.ok (), { g with trie := t, metrics := g.metrics.bump .metadataStores }) := by
  rw [storeMetadata, Action.run_bind_of_ok (run_count ..)]
  exact run_updateTrie_of_ok h

theorem run_storeMetadata_of_error {mode : Mode} {g : Guard mode} {w : Word} {m : Metadata}
    {v : Violation} (h : g.trie.store w m = .error v) : (storeMetadata w m).run g
      = (.error v, { g with metrics := g.metrics.bump .metadataStores }) := by
  rw [storeMetadata, Action.run_bind_of_ok (run_count ..)]
  exact run_updateTrie_of_error h

theorem storeMetadata_eq_ok {w : Word} {m : Metadata}
    (h : ((perform (.storeMetadata w m)).run g).1 = .ok .done) :
    g.trie.store w m = .ok (g.step (.storeMetadata w m)).trie := by
  cases hs : g.trie.store w m with
  | error v =>
    rw [perform, quiet_eq_ok_iff, run_storeMetadata_of_error hs] at h
    cases h
  | ok t =>
    rw [step, perform, quiet, Action.run_bind_of_ok (run_storeMetadata_of_ok hs)]
    rfl

theorem spatialCheck_eq_ok_iff {lenient : Leniency} {ptr width base bound : Word} (hb : base ≠ 0)
    (hw : 0 < width) :
    spatialCheck lenient ptr width base bound = .ok () ↔ InBounds ptr width base bound := by
  have hz : width ≠ 0 := by
    rintro rfl
    exact absurd hw (by decide)
  rw [spatialCheck_passes_iff]
  refine or_iff_left ?_
  rintro (h | h)
  · exact hb h.2
  · exact hz h.2

/-- What is stored is loaded until one of its own words is written. -/
theorem load_after {before later : List Operation} {w : Word} {m : Metadata}
    (hsound : g.trie.Sound)
    (hstore : ((perform (.storeMetadata w m)).run (g.after before)).1 = .ok .done)
    (hlater : ∀ op ∈ later, ¬op.Writes (wordOf w)) :
    (g.after (before ++ .storeMetadata w m :: later)).trie.load w = m := by
  have hbefore := sound_after hsound before
  have hs := storeMetadata_eq_ok hstore
  have hout := ((g.after before).step (.storeMetadata w m)).outside_after (W := (· ≠ wordOf w))
    later fun op hm k hk heq => hlater op hm (heq ▸ hk)
  have hrun : g.after (before ++ .storeMetadata w m :: later)
      = ((g.after before).step (.storeMetadata w m)).after later := List.foldl_append ..
  rw [hrun, Trie.load_eq_word, hout.same (Trie.Sound.store hbefore hs) _ (by simp),
    Trie.word_store hbefore hs, if_pos rfl]
  rfl

/-- The check of an access through a recorded pointer to a registered object passes exactly if the
access stays within the object and the object was not released since. -/
theorem dereference_exact {config : Config} {before between later : List Operation}
    {p size w : Word} {m : Metadata} (hc : Guard.create host config = .ok g)
    (hzero : ∀ ptr lock, .deallocate ptr 0 lock ∉
      before ++ .allocateObject p size :: (between ++ .storeMetadata w m :: later))
    (hkeys : g.keysDrawn (before ++ .allocateObject p size ::
      (between ++ .storeMetadata w m :: later)) < 2 ^ 64 - 2)
    (halloc : ((perform (.allocateObject p size)).run (g.after before)).1 = .ok (.entry m))
    (hstore : ((perform (.storeMetadata w m)).run
      (g.after (before ++ .allocateObject p size :: between))).1 = .ok .done)
    (hlater : ∀ op ∈ later, ¬op.Writes (wordOf w)) (ptr : Word) {width : Word} (hw : 0 < width) :
    ((perform (.checkDereferenceVia w ptr width)).run (g.after (before ++
      .allocateObject p size :: (between ++ .storeMetadata w m :: later)))).1 = .ok .done ↔
      (p.toNat ≤ ptr.toNat ∧ ptr.toNat + width.toNat ≤ p.toNat + size.toNat) ∧
        ¬Runs.Ever step (Releases m.key m.lock) (g.after (before ++ [.allocateObject p size]))
          (between ++ .storeMetadata w m :: later) := by
  obtain ⟨hvalid, htrie, hlife⟩ := create_eq_ok hc
  obtain ⟨l, hl, hlc⟩ := hlife rfl
  obtain ⟨_, hsmall, _⟩ := Config.validate_eq_ok_iff.mp hvalid
  have hlb := lifetimes_after hl before
  obtain ⟨hreq, hserve, hbase, hbound⟩ := allocateObject_eq_ok hlb halloc
  have hp : p ≠ 0 := (hserve ▸ Lifetimes.change_step _ (.allocate p)).ne_zero_of_allocate
  have hrequests : g.requestsOf (before ++ .allocateObject p size ::
      (between ++ .storeMetadata w m :: later)) = g.requestsOf before ++ .allocate p ::
        ((g.after before).step (.allocateObject p size)).requestsOf
          (between ++ .storeMetadata w m :: later) := by
    rw [requestsOf_append, requestsOf, hreq]
    rfl
  have hstart : ((g.after before).step (.allocateObject p size)).lifetimes
      = some ((l.after (g.requestsOf before)).step (.allocate p)) := by
    rw [lifetimes_step hlb, hreq]
    rfl
  have hload : (g.after (before ++ .allocateObject p size ::
      (between ++ .storeMetadata w m :: later))).trie.load w = m := by
    have hsplit : before ++ .allocateObject p size :: (between ++ .storeMetadata w m :: later)
        = (before ++ .allocateObject p size :: between) ++ .storeMetadata w m :: later := by simp
    rw [hsplit]
    exact load_after (Trie.sound_create htrie) hstore hlater
  rw [keysDrawn_eq hl, hrequests] at hkeys
  obtain ⟨hlock, hcheck⟩ := Lifetimes.check_eq_ok_iff_never_released hsmall.le hlc
    (hrequests ▸ regular_requestsOf hzero _) hkeys hserve
  rw [checkDereferenceVia_eq_ok_iff (lifetimes_after hl _) hload,
    spatialCheck_eq_ok_iff (hbase ▸ hp) hw, hrequests, hcheck, ← ever_releases_iff hstart]
  have hend : g.after (before ++ [.allocateObject p size])
      = (g.after before).step (.allocateObject p size) := List.foldl_append ..
  rw [hend, InBounds, hbase, hbound]
  exact and_congr_right fun _ => or_iff_right fun h => hlock h.1

/-- Before the entry is stored, the cell of an older object is given back; after that it is given
out again, and the entry is copied elsewhere. -/
theorem dereference_exact_compact :
    ∃ g : Guard .combined, Guard.create .standard Config.compact = .ok g ∧
      ∃ m, ((perform (.allocateObject 0x1000 16)).run (g.after [.allocate 0x5000])).1
          = .ok (.entry m) ∧
        ∀ ptr width : Word, 0 < width →
          (((perform (.checkDereferenceVia 0x8000 ptr width)).run (g.after ([.allocate 0x5000] ++
            Operation.allocateObject 0x1000 16 :: ([.deallocate 0x5000 2 heapLocksAddr] ++
              Operation.storeMetadata 0x8000 m ::
                [.allocate 0x6000, .copyMetadata 0x9000 0x8000 16])))).1
                = .ok .done ↔ 0x1000 ≤ ptr.toNat ∧ ptr.toNat + width.toNat ≤ 0x1010) := by
  have hc : (Guard.create .standard Config.compact : Except _ (Guard .combined)) = .ok _ := rfl
  refine ⟨_, hc, ⟨0x1000, 0x1010, 3, heapLocksAddr + 8⟩, rfl, fun ptr width hw => ?_⟩
  have hlater : ∀ op ∈ [Operation.allocate 0x6000, .copyMetadata 0x9000 0x8000 16],
      ¬op.Writes (wordOf 0x8000) := by
    intro op hm
    rcases List.mem_pair.mp hm with rfl | rfl
    · exact id
    · rintro ⟨i, _, heq⟩
      simp only [wordOf, UInt64.reduceToNat, Nat.reduceDiv] at heq
      omega
  refine (dereference_exact hc ?_ ?_ rfl rfl hlater ptr hw).trans (and_iff_left ?_)
  · simp
  · decide
  · simp [Runs.Ever, Releases]

end PointerGuard.Guard
