import PointerGuard.Proofs.Runs
import PointerGuard.Proofs.ShadowStack.Frames

namespace PointerGuard.ShadowStack

variable {host : Host}
variable {mode : Mode} {s s' : ShadowStack mode} {f g : List Metadata} {fs : List (List Metadata)}
  {capacity : Nat}

inductive Request where
  | push (slots : Nat)
  | pop
  | load (slot : Nat)
  | store (slot : Nat) (e : Metadata)
  | propagate (source target : Nat)
  | storeNullReturn
deriving DecidableEq, Repr

/-- A change of the stack that happens only if it succeeds. -/
def settle (s : ShadowStack mode) :
    Except Violation (ShadowStack mode) → Except Violation (Option Metadata) × ShadowStack mode
  | .ok s' => (.ok none, s')
  | .error v => (.error v, s)

/-- Serves a request and answers the entry that it loads, if it loads one. -/
def serve (s : ShadowStack mode) : Request → Except Violation (Option Metadata) × ShadowStack mode
  | .push slots => s.settle (s.push slots)
  | .pop => s.settle s.pop
  | .load slot => ((s.loadSlot slot).map some, s)
  | .store slot e => s.settle (s.storeSlot slot e)
  | .propagate source target => s.settle (s.propagate source target)
  | .storeNullReturn => s.settle (s.storeSlot 0 .unknown)

def step (s : ShadowStack mode) (r : Request) : ShadowStack mode := (s.serve r).2

/-- The stack after a list of requests, whether they succeed or not. -/
def after (s : ShadowStack mode) (rs : List Request) : ShadowStack mode := rs.foldl step s

/-- The slots that a request names, in the order in which they are looked up. -/
def Request.slots : Request → List Nat
  | .load slot => [slot]
  | .store slot _ => [slot]
  | .propagate source target => [source, target]
  | .storeNullReturn => [0]
  | _ => []

/-- What a list of frames does with a request, newest frame first and root last, when `capacity`
words are there for frames and headers. A new frame may show anything. -/
inductive Serves (mode : Mode) (capacity : Nat) : List (List Metadata) → Request →
    Except Violation (Option Metadata) → List (List Metadata) → Prop
  | pushed {fs : List (List Metadata)} {shown : List Metadata} :
      frameWords mode (shown :: fs) ≤ capacity →
      Serves mode capacity fs (.push shown.length) (.ok none) (shown :: fs)
  | full {fs : List (List Metadata)} {n : Nat} :
      capacity < frameWords mode fs + 2 + n * mode.fields →
      Serves mode capacity fs (.push n) (.error (.exhausted .shadowStack)) fs
  | popped {g f : List Metadata} {fs : List (List Metadata)} :
      Serves mode capacity (g :: f :: fs) .pop (.ok none) (f :: fs)
  | underflow {root : List Metadata} :
      Serves mode capacity [root] .pop (.error .shadowStackUnderflow) [root]
  | loaded {f : List Metadata} {fs : List (List Metadata)} {slot : Nat} {e : Metadata} :
      f[slot]? = some e → Serves mode capacity (f :: fs) (.load slot) (.ok (some e)) (f :: fs)
  | stored {f : List Metadata} {fs : List (List Metadata)} {slot : Nat} {e : Metadata} :
      slot < f.length →
      Serves mode capacity (f :: fs) (.store slot e) (.ok none) (f.set slot (mode.keep e) :: fs)
  | propagated {f : List Metadata} {fs : List (List Metadata)} {source target : Nat}
      {e : Metadata} : f[source]? = some e → target < f.length →
      Serves mode capacity (f :: fs) (.propagate source target) (.ok none) (f.set target e :: fs)
  | cleared {f : List Metadata} {fs : List (List Metadata)} : 0 < f.length →
      Serves mode capacity (f :: fs) .storeNullReturn (.ok none)
        (f.set 0 .unknown :: fs)
  | outside {f : List Metadata} {fs : List (List Metadata)} {r : Request} {slot : Nat} :
      r.slots.find? (f.length ≤ ·) = some slot →
      Serves mode capacity (f :: fs) r (.error (.slotOutsideFrame slot f.length)) (f :: fs)

/-- The stack holds these frames, newest first. -/
structure Holds (s : ShadowStack mode) (fs : List (List Metadata)) : Prop where
  laid : Laid mode s.words fs
  ptr : s.ptr = frameWords mode fs.tail
  depth : s.depth + 1 = fs.length
  fits : frameWords mode fs ≤ s.words.len
  small : s.words.len < 2 ^ 64

theorem holds_create (h : ShadowStack.create host capacity = .ok s) :
    s.Holds [[]] ∧ s.words.len = max 2 capacity := by
  unfold create at h
  split at h
  next words hr =>
    obtain ⟨rfl, _, hroom⟩ := Table.reserve_eq_ok hr
    cases Except.ok.inj h
    refine ⟨⟨.root (Table.get_empty ..), rfl, rfl, ?_, ?_⟩, rfl⟩
    · simp only [frameWords, List.length_nil]
      omega
    · show max 2 capacity < 2 ^ 64
      omega
  next => cases h

namespace Holds

theorem frames (h : s.Holds fs) : s.frames = fs := by
  rw [ShadowStack.frames, h.ptr, show s.depth = fs.length - 1 by have := h.depth; omega]
  exact h.laid.framesFrom_eq

theorem frameSize (h : s.Holds (f :: fs)) : s.frameSize = f.length * mode.fields := by
  rw [ShadowStack.frameSize, h.ptr]
  exact h.laid.size

theorem frameSlots (h : s.Holds (f :: fs)) : s.frameSlots = f.length := by
  rw [ShadowStack.frameSlots, h.frameSize, Nat.mul_div_cancel _ mode.fields_pos]

theorem frameEnd (h : s.Holds (f :: fs)) : s.frameEnd = frameWords mode (f :: fs) := by
  rw [ShadowStack.frameEnd, h.frameSize, h.ptr]
  rfl

theorem push (h : s.Holds (f :: fs)) {n : Nat}
    (hroom : frameWords mode (f :: fs) + 2 + n * mode.fields ≤ s.words.len) :
    ∃ s' shown, s.push n = .ok s' ∧ shown.length = n ∧ s'.Holds (shown :: f :: fs) ∧
      s'.words.len = s.words.len := by
  have hsmall := h.small
  have hsize : f.length * mode.fields < 1 <<< 64 := by
    have hend : frameWords mode (f :: fs) = frameWords mode fs + 2 + f.length * mode.fields := rfl
    omega
  rw [ShadowStack.push, h.frameEnd, if_neg (by omega), h.frameSize]
  refine ⟨_, _, rfl, length_slotEntries .., ⟨.frame (h.laid.congr fun k hk => ?_) ?_ ?_, rfl, ?_, ?_,
    h.small⟩, rfl⟩
  · rw [Table.get_set_of_ne (by omega), Table.get_set_of_ne (by omega)]
  · rw [Table.get_set_of_ne (by omega), Table.get_set_self, toNat_ofNat_of_lt hsize]
  · rw [Table.get_set_self, toNat_ofNat_of_lt (by omega)]
  · rw [List.length_cons, ← h.depth]
  · rwa [frameWords, length_slotEntries]

theorem pop (h : s.Holds (g :: f :: fs)) : ∃ s', s.pop = .ok s' ∧ s'.Holds (f :: fs) ∧
    s'.words.len = s.words.len := by
  have hdepth := h.depth
  have hfits := h.fits
  obtain ⟨hlaid, hprev⟩ := h.laid.caller
  rw [List.length_cons, List.length_cons] at hdepth
  rw [ShadowStack.pop, if_neg (by omega)]
  refine ⟨_, rfl, ⟨hlaid, ?_, ?_, ?_, h.small⟩, rfl⟩
  · show s.ptr - ((s.words.get s.ptr).toNat + 2) = frameWords mode fs
    rw [h.ptr]
    show frameWords mode (f :: fs) - ((s.words.get (frameWords mode (f :: fs))).toNat + 2) = _
    rw [hprev, frameWords]
    omega
  · show s.depth - 1 + 1 = _
    rw [List.length_cons]
    omega
  · have hgrown : frameWords mode (g :: f :: fs)
        = frameWords mode (f :: fs) + 2 + g.length * mode.fields := rfl
    show frameWords mode (f :: fs) ≤ s.words.len
    omega

theorem slotOffset (h : s.Holds (f :: fs)) {slot : Nat} (hs : slot < f.length) :
    s.slotOffset slot = .ok (frameWords mode fs + 2 + slot * mode.fields) := by
  rw [ShadowStack.slotOffset, h.frameSlots, if_pos hs, h.ptr]
  rfl

theorem slotOffset_error (h : s.Holds (f :: fs)) {slot : Nat} (hs : f.length ≤ slot) :
    s.slotOffset slot = .error (.slotOutsideFrame slot f.length) := by
  rw [ShadowStack.slotOffset, h.frameSlots, if_neg (Nat.not_lt.mpr hs)]

theorem loadSlot (h : s.Holds (f :: fs)) {slot : Nat} {e : Metadata} (he : f[slot]? = some e) :
    s.loadSlot slot = .ok e := by
  obtain ⟨hs, _⟩ := List.getElem?_eq_some_iff.mp he
  rw [← h.laid.entries, getElem?_slotEntries hs] at he
  rw [ShadowStack.loadSlot, h.slotOffset hs]
  exact congrArg Except.ok (Option.some.inj he)

theorem loadSlot_error (h : s.Holds (f :: fs)) {slot : Nat} (hs : f.length ≤ slot) :
    s.loadSlot slot = .error (.slotOutsideFrame slot f.length) := by
  rw [ShadowStack.loadSlot, h.slotOffset_error hs]

/-- A slot shows what the mode keeps of an entry. -/
theorem keep_entry (h : s.Holds (f :: fs)) {slot : Nat} {e : Metadata} (he : f[slot]? = some e) :
    mode.keep e = e := by
  obtain ⟨hs, _⟩ := List.getElem?_eq_some_iff.mp he
  rw [← h.laid.entries, getElem?_slotEntries hs] at he
  rw [← Option.some.inj he, Mode.keep_decode]

theorem storeSlot (h : s.Holds (f :: fs)) {slot : Nat} (hs : slot < f.length) (e : Metadata) :
    ∃ s', s.storeSlot slot e = .ok s' ∧ s'.Holds (f.set slot (mode.keep e) :: fs) ∧
      s'.words.len = s.words.len := by
  rw [ShadowStack.storeSlot, h.slotOffset hs]
  refine ⟨_, rfl, ⟨h.laid.set_slot hs e, h.ptr, ?_, ?_, ?_⟩, Table.len_setSlice ..⟩
  · exact h.depth
  · rw [Table.len_setSlice, frameWords, List.length_set]
    exact h.fits
  · rw [Table.len_setSlice]
    exact h.small

theorem storeSlot_error (h : s.Holds (f :: fs)) {slot : Nat} (hs : f.length ≤ slot)
    (e : Metadata) : s.storeSlot slot e = .error (.slotOutsideFrame slot f.length) := by
  rw [ShadowStack.storeSlot, h.slotOffset_error hs]

/-- Whatever the request, the stack holds what the list of frames becomes. -/
theorem serves (h : s.Holds fs) (r : Request) : ∃ fs', (s.step r).Holds fs' ∧
    (s.step r).words.len = s.words.len ∧ Serves mode s.words.len fs r (s.serve r).1 fs' := by
  obtain ⟨f, fs, rfl⟩ : ∃ f fs', fs = f :: fs' :=
    List.exists_cons_of_ne_nil (List.ne_nil_of_length_pos (by have := h.depth; omega))
  have served {a : Except Violation (Option Metadata)} {s' : ShadowStack mode}
      {fs' : List (List Metadata)} (hr : s.serve r = (a, s')) (hh : s'.Holds fs')
      (hlen : s'.words.len = s.words.len) (hs : Serves mode s.words.len (f :: fs) r a fs') :
      ∃ fs', (s.step r).Holds fs' ∧ (s.step r).words.len = s.words.len ∧
        Serves mode s.words.len (f :: fs) r (s.serve r).1 fs' := by
    rw [step, hr]
    exact ⟨fs', hh, hlen, hs⟩
  -- A request that names a slot which the frame lacks changes nothing.
  have outside {slot : Nat} (hr : s.serve r = (.error (.slotOutsideFrame slot f.length), s))
      (hs : r.slots.find? (f.length ≤ ·) = some slot) := served hr h rfl (.outside hs)
  cases r with
  | push n =>
    by_cases hroom : frameWords mode (f :: fs) + 2 + n * mode.fields ≤ s.words.len
    · obtain ⟨s', shown, hs, rfl, hh, hlen⟩ := h.push hroom
      exact served (congrArg s.settle hs) hh hlen (.pushed (hlen ▸ hh.fits))
    · have hs : s.push n = .error (.exhausted .shadowStack) := by
        rw [ShadowStack.push, h.frameEnd, if_pos (by omega)]
      exact served (congrArg s.settle hs) h rfl (.full (by omega))
  | pop =>
    cases fs with
    | nil =>
      have hroot : s.depth = 0 := Nat.succ.inj h.depth
      have hs : s.pop = .error .shadowStackUnderflow := by
        rw [ShadowStack.pop, if_pos hroot]
      exact served (congrArg s.settle hs) h rfl .underflow
    | cons g fs =>
      obtain ⟨s', hs, hh, hlen⟩ := h.pop
      exact served (congrArg s.settle hs) hh hlen .popped
  | load slot =>
    by_cases hslot : slot < f.length
    · have he := List.getElem?_eq_getElem hslot
      exact served (congrArg (fun x => (x.map some, s)) (h.loadSlot he)) h rfl (.loaded he)
    · have hlack := Nat.not_lt.mp hslot
      exact outside (congrArg (fun x => (x.map some, s)) (h.loadSlot_error hlack))
        (by simp [Request.slots, hlack])
  | store slot e =>
    by_cases hslot : slot < f.length
    · obtain ⟨s', hs, hh, hlen⟩ := h.storeSlot hslot e
      exact served (congrArg s.settle hs) hh hlen (.stored hslot)
    · have hlack := Nat.not_lt.mp hslot
      exact outside (congrArg s.settle (h.storeSlot_error hlack e))
        (by simp [Request.slots, hlack])
  | propagate source target =>
    by_cases hsource : source < f.length
    · have he := List.getElem?_eq_getElem hsource
      have hload : s.propagate source target = s.storeSlot target f[source] := by
        rw [ShadowStack.propagate, h.loadSlot he]
      by_cases htarget : target < f.length
      · obtain ⟨s', hs, hh, hlen⟩ := h.storeSlot htarget f[source]
        rw [h.keep_entry he] at hh
        exact served (congrArg s.settle (hload.trans hs)) hh hlen (.propagated he htarget)
      · have hlack := Nat.not_lt.mp htarget
        exact outside (congrArg s.settle (hload.trans (h.storeSlot_error hlack _)))
          (by simp [Request.slots, hlack, hsource])
    · have hlack := Nat.not_lt.mp hsource
      have hs : s.propagate source target = .error (.slotOutsideFrame source f.length) := by
        rw [ShadowStack.propagate, h.loadSlot_error hlack]
      exact outside (congrArg s.settle hs) (by simp [Request.slots, hlack])
  | storeNullReturn =>
    by_cases hslot : 0 < f.length
    · obtain ⟨s', hs, hh, hlen⟩ := h.storeSlot hslot .unknown
      rw [Mode.keep_unknown] at hh
      exact served (congrArg s.settle hs) hh hlen (.cleared hslot)
    · have hlack := Nat.not_lt.mp hslot
      exact outside (congrArg s.settle (h.storeSlot_error hlack .unknown))
        (by simp [Request.slots, hlack])

theorem of_push (h : s.Holds fs) {n : Nat} (hp : s.push n = .ok s') :
    ∃ shown, shown.length = n ∧ s'.Holds (shown :: fs) := by
  obtain ⟨fs', hh, _, hserves⟩ := h.serves (.push n)
  rw [step, serve, hp] at hh
  rw [serve, hp] at hserves
  cases hserves with
  | pushed => exact ⟨_, rfl, hh⟩

theorem of_pop (h : s.Holds fs) (hp : s.pop = .ok s') : s'.Holds fs.tail := by
  obtain ⟨fs', hh, _, hserves⟩ := h.serves .pop
  rw [step, serve, hp] at hh
  rw [serve, hp] at hserves
  cases hserves with
  | popped => exact hh

theorem of_store (h : s.Holds fs) {slot : Nat} {e : Metadata} (hp : s.storeSlot slot e = .ok s') :
    ∃ fs', s'.Holds fs' ∧ fs'.map List.length = fs.map List.length := by
  obtain ⟨fs', hh, _, hserves⟩ := h.serves (.store slot e)
  rw [step, serve, hp] at hh
  rw [serve, hp] at hserves
  cases hserves with
  | stored => exact ⟨_, hh, by rw [List.map_cons, List.map_cons, List.length_set]⟩

theorem after (h : s.Holds fs) (rs : List Request) :
    ∃ fs', (s.after rs).Holds fs' ∧ (s.after rs).words.len = s.words.len := by
  refine Runs.foldl_invariant
    (I := fun t : ShadowStack mode => ∃ fs', t.Holds fs' ∧ t.words.len = s.words.len)
    (fun t r ht => ?_) rs ⟨fs, h, rfl⟩
  obtain ⟨fs', ht, hlen⟩ := ht
  obtain ⟨fs'', ht', hlen', _⟩ := ht.serves r
  exact ⟨fs'', ht', hlen'.trans hlen⟩

end Holds

/-- As long as frames above `base` are there, `base` stays as it is. -/
theorem Serves.keeps_base {capacity : Nat} {f : List Metadata} {top base fs' : List (List Metadata)}
    {r : Request} {a : Except Violation (Option Metadata)}
    (h : Serves mode capacity (f :: (top ++ base)) r a fs') (hl : base.length < fs'.length) :
    ∃ f' top', fs' = f' :: (top' ++ base) := by
  generalize hfs : top ++ base = fs at h
  cases h with
  | pushed => exact ⟨_, f :: top, by rw [← hfs, List.cons_append]⟩
  | popped =>
    cases top with
    | nil =>
      rw [List.nil_append] at hfs
      rw [hfs] at hl
      exact absurd hl (Nat.lt_irrefl _)
    | cons g top => exact ⟨g, top, hfs.symm⟩
  | underflow => exact ⟨f, top, by rw [hfs]⟩
  | full => exact ⟨f, top, by rw [hfs]⟩
  | loaded => exact ⟨f, top, by rw [hfs]⟩
  | stored => exact ⟨_, top, by rw [hfs]⟩
  | propagated => exact ⟨_, top, by rw [hfs]⟩
  | cleared => exact ⟨_, top, by rw [hfs]⟩
  | outside => exact ⟨f, top, by rw [hfs]⟩

/-- The call of a frame of `n` slots, whose body ends in this frame and does not leave it before,
and then its return. -/
structure Call (s : ShadowStack mode) (n : Nat) (body : List Request)
    (callee : ShadowStack mode) : Prop where
  pushed : s.push n = .ok callee
  above : Runs.Always step (fun t r => s.depth < (t.step r).depth) callee body
  back : (callee.after body).depth = callee.depth

/-- A call gives the caller all its frames back. -/
theorem Holds.returns (h : s.Holds fs) {n : Nat} {body : List Request}
    {callee : ShadowStack mode} (hc : s.Call n body callee) :
    ∃ caller, (callee.after body).pop = .ok caller ∧ caller.Holds fs := by
  have hdepth := h.depth
  obtain ⟨shown, _, hcallee⟩ := h.of_push hc.pushed
  -- The body keeps some frame on top of the frames of the caller.
  obtain ⟨f, top, hbody⟩ : ∃ f top, (callee.after body).Holds (f :: (top ++ fs)) := by
    refine Runs.foldl_of_always (I := fun t : ShadowStack mode => ∃ f top, t.Holds (f :: (top ++ fs)))
      (fun t r ht hr => ?_) ⟨shown, [], hcallee⟩ hc.above
    obtain ⟨f, top, ht⟩ := ht
    obtain ⟨fs', ht', _, hserves⟩ := ht.serves r
    have hlong : fs.length < fs'.length := by
      rw [← ht'.depth, ← hdepth]
      exact Nat.succ_lt_succ hr
    obtain ⟨f', top', rfl⟩ := hserves.keeps_base hlong
    exact ⟨f', top', ht'⟩
  have hlen : (callee.after body).depth + 1 = (shown :: fs).length := hc.back ▸ hcallee.depth
  have htop : top = [] := by
    rw [hbody.depth, List.length_cons, List.length_cons, List.length_append] at hlen
    exact List.length_eq_zero_iff.mp (by omega)
  obtain ⟨g, gs, rfl⟩ : ∃ g gs, fs = g :: gs :=
    List.exists_cons_of_ne_nil (List.ne_nil_of_length_pos (by omega))
  subst htop
  obtain ⟨caller, hpop, hcaller, _⟩ := hbody.pop
  exact ⟨caller, hpop, hcaller⟩

/-- After any run the words of the stack hold a list of frames, which decides the answer to the next
request and changes as a list of frames does; and a call gives the caller back what it had. -/
theorem simulates_frames (hc : ShadowStack.create host capacity = .ok s) :
    s.frames = [[]] ∧ ∀ rs,
      (s.after rs).ptr = frameWords mode (s.after rs).frames.tail ∧
      (s.after rs).depth + 1 = (s.after rs).frames.length ∧
      (s.after rs).frames.head?.map List.length = some (s.after rs).frameSlots ∧
      (∀ r, Serves mode (max 2 capacity) (s.after rs).frames r ((s.after rs).serve r).1
        ((s.after rs).step r).frames) ∧
      ∀ n body callee, (s.after rs).Call n body callee →
        ∃ caller, (callee.after body).pop = .ok caller ∧ caller.frames = (s.after rs).frames ∧
          caller.ptr = (s.after rs).ptr ∧ caller.depth = (s.after rs).depth ∧
          caller.frameSlots = (s.after rs).frameSlots := by
  obtain ⟨hstart, hsize⟩ := holds_create hc
  refine ⟨hstart.frames, fun rs => ?_⟩
  obtain ⟨fs, hrun, hlen⟩ := hstart.after rs
  rw [hrun.frames]
  have hslots {t : ShadowStack mode} (ht : t.Holds fs) :
      fs.head?.map List.length = some t.frameSlots := by
    cases fs with
    | nil => cases ht.laid
    | cons f fs => rw [ht.frameSlots]; rfl
  refine ⟨hrun.ptr, hrun.depth, hslots hrun, fun r => ?_, fun n body callee hcall => ?_⟩
  · obtain ⟨fs', hnext, _, hserves⟩ := hrun.serves r
    rw [hnext.frames, ← hsize, ← hlen]
    exact hserves
  · obtain ⟨caller, hpop, hcaller⟩ := hrun.returns hcall
    refine ⟨caller, hpop, hcaller.frames, hcaller.ptr.trans hrun.ptr.symm, ?_, ?_⟩
    · exact Nat.succ.inj (hcaller.depth.trans hrun.depth.symm)
    · exact Option.some.inj ((hslots hcaller).symm.trans (hslots hrun))

/-- The callee overwrites its own slot, fills the stack to the last word and fails to push more. -/
theorem simulates_frames_across_call :
    ∃ s callee : ShadowStack .combined, ShadowStack.create .standard 16 = .ok s ∧
      (s.after [.push 1, .store 0 ⟨0x1000, 0x1010, 2, heapLocksAddr⟩]).Call 1
        [.store 0 (.wide 0), .push 0, .push 0, .pop] callee ∧
      ∃ caller, (callee.after [.store 0 (.wide 0), .push 0, .push 0, .pop]).pop = .ok caller ∧
        caller.frames = [[⟨0x1000, 0x1010, 2, heapLocksAddr⟩], []] := by
  have hc : ShadowStack.create .standard 16
      = .ok ({ words := { len := 16 } } : ShadowStack .combined) := rfl
  have hpush : (ShadowStack.after ({ words := { len := 16 } } : ShadowStack .combined)
      [.push 1, .store 0 ⟨0x1000, 0x1010, 2, heapLocksAddr⟩]).push 1 = .ok _ := rfl
  have hcall : Call _ 1 [.store 0 (.wide 0), .push 0, .push 0, .pop] _ := ⟨hpush, by decide, rfl⟩
  obtain ⟨_, hruns⟩ := simulates_frames hc
  obtain ⟨_, _, _, _, hreturns⟩ := hruns _
  obtain ⟨caller, hpop, hframes, _⟩ := hreturns _ _ _ hcall
  exact ⟨_, _, hc, hcall, caller, hpop, hframes.trans rfl⟩

end PointerGuard.ShadowStack
