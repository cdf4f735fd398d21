import PointerGuard.Proofs.Lifetimes.Liveness
import PointerGuard.Proofs.Session.Reallocation
import PointerGuard.Proofs.Trie.Directory

namespace PointerGuard

variable {host : Host}

theorem ShadowStack.loadSlot_of_store {mode : Mode} {s s' : ShadowStack mode} {slot : Nat}
    {e : Metadata} (h : s.storeSlot slot e = .ok s') : s'.loadSlot slot = .ok (mode.keep e) := by
  unfold storeSlot slotOffset at h
  split at h
  next hs =>
    split at hs
    next => cases hs
    next => cases h
  next i hs =>
    split at hs
    next hlt =>
      cases Except.ok.inj hs
      cases Except.ok.inj h
      let words := s.words.setSlice (s.ptr + 2 + slot * mode.fields) (mode.encode e)
      have hheader : words.get (s.ptr + 1) = s.words.get (s.ptr + 1) := by
        rw [Table.get_setSlice, if_neg (by omega)]
      have hslots : ({ s with words } : ShadowStack mode).frameSlots = s.frameSlots :=
        congrArg (·.toNat / mode.fields) hheader
      have hwritten : words.slice (s.ptr + 2 + slot * mode.fields) mode.fields = mode.encode e := by
        have hwhole := s.words.slice_setSlice (s.ptr + 2 + slot * mode.fields) (mode.encode e)
        rwa [mode.length_encode] at hwhole
      rw [loadSlot, slotOffset, hslots, if_pos hlt]
      exact congrArg (fun ws => Except.ok (mode.decode ws)) hwritten
    next => cases hs

theorem ShadowStack.lt_of_loadSlot {mode : Mode} {s : ShadowStack mode} {slot : Nat} {e : Metadata}
    (h : s.loadSlot slot = .ok e) : slot < s.frameSlots := by
  by_contra hlt
  rw [loadSlot, slotOffset, if_neg hlt] at h
  cases h

namespace Trie

variable {mode : Mode} {t : Trie mode} {dest src len : Word} {n : Nat}

theorem trimmed_of_sound {t : Trie .combined} (ht : t.Sound) : t.Trimmed :=
  ⟨ht, fun _ => rfl⟩

theorem load_copyMetadata (ht : t.Trimmed) (hok : (t.copyMetadata dest src len).1 = .ok n) :
    (∀ i < n, (t.copyMetadata dest src len).2.load (wordAt dest i) = t.load (wordAt src i)) ∧
      ∀ a, (∀ i < n, wordOf a ≠ wordOf dest + i) →
        (t.copyMetadata dest src len).2.load a = t.load a := by
  obtain ⟨lo, hi, hm, hall⟩ := Moved.copyMetadata ht dest src len
  obtain ⟨rfl, rfl, _, hfit⟩ := hall n hok
  refine ⟨fun i hi => ?_, fun a ha => ?_⟩
  · obtain ⟨hsrc, hdest⟩ := hfit (Nat.zero_lt_of_lt hi)
    rw [lastWord] at hsrc hdest
    rw [load_eq_word, load_eq_word, wordOf_wordAt (by omega), wordOf_wordAt (by omega)]
    exact hm.moved i (Nat.zero_le i) hi
  · rw [load_eq_word, load_eq_word]
    exact hm.same _ fun i _ hi => ha i hi

end Trie

open Lifetimes (Holding Watched Kept)

namespace Guard

variable {g : Guard .combined} {l l' : Lifetimes} {w : Watched}

/-- The lease of the allocation passes its check, and the allocation can be freed at its address. -/
def Upholds (g : Guard .combined) (h : Holding) : Prop :=
  ((checkTemporal h.lease.key h.lease.lock).run g).1 = .ok () ∧
    ((deallocate h.addr h.lease.key h.lease.lock).run g).1 = .ok ()

theorem upholds_of_held (hk : Kept w) (hl : g.lifetimes = some w.lifetimes) {h : Holding}
    (hh : h ∈ w.held) : g.Upholds h := by
  obtain ⟨free, hd⟩ := hk.divided
  have hlease : h.lease ∈ w.leases := List.mem_map_of_mem hh
  refine ⟨(checkTemporal_eq_ok_iff hl).mpr (Or.inr (hk.check hlease)), ?_⟩
  refine (deallocate_eq_ok_iff hl).mpr (Lifetimes.deallocate_eq_ok_iff.mpr ⟨hd.live _ hlease, ?_⟩)
  exact fun m hm => hk.contains hm hh

theorem run_updateLifetimes {f : Lifetimes → Except Violation Lifetimes} {r : Except Violation Unit}
    (hl : g.lifetimes = some l) (h : (Action.update f).run l = (r, l')) :
    (onLifetimes () (.update f)).run g = (r, { g with lifetimes := some l' }) := by
  rw [run_onLifetimes hl, h]

theorem run_deallocate_of_ok {ptr key lock : Word} (hl : g.lifetimes = some l)
    (h : l.deallocate ptr key lock = .ok l') : ∃ metrics,
    (deallocate ptr key lock).run g = (.ok (), { g with lifetimes := some l', metrics }) :=
  ⟨_, Action.run_bind_of_ok (run_updateLifetimes hl (Action.run_update_of_ok h))⟩

theorem run_copyMetadata_of_ok {dest src len : Word} {n : Nat}
    (h : (g.trie.copyMetadata dest src len).1 = .ok n) : ∃ metrics,
    (copyMetadata dest src len).run g
      = (.ok n, { g with trie := (g.trie.copyMetadata dest src len).2, metrics }) := by
  have htrie : (onTrie (·.copyMetadata dest src len)).run g
      = (.ok n, { g with trie := (g.trie.copyMetadata dest src len).2 }) := by
    rw [← h]
    rfl
  rw [copyMetadata, Action.run_bind_of_ok htrie]
  by_cases hn : 0 < n
  · rw [if_pos hn, Action.run_bind_of_ok (run_count ..)]
    exact ⟨_, rfl⟩
  · rw [if_neg hn]
    exact ⟨_, rfl⟩

theorem run_storeReturn_of_ok {e : Metadata} {shadow : ShadowStack .combined}
    (h : g.shadow.storeSlot 0 e = .ok shadow) :
    (storeReturn e).run g = (.ok (), { g with shadow }) :=
  run_updateShadow_of_ok (f := (·.storeSlot 0 e)) h

end Guard

namespace Session

variable {s : Session} {g g' : Guard .combined} {w : Watched} {m : FreeMap}
  {ptr bound key lock size result : Word} {old : Metadata}

theorem run_followResize_of_null (hslots : 0 < g.shadow.frameSlots) (ptr size : Word)
    (old : Metadata) :
    ∃ shadow, shadow.loadSlot 0 = .ok .unknown ∧
      (followResize ptr size 0 old).run g
        = (if size = 0 then Guard.deallocate ptr old.key old.lock else pure ()).run
            { g with shadow } := by
  obtain ⟨shadow, hs⟩ := g.shadow.storeSlot_of_lt hslots .unknown
  refine ⟨shadow, ShadowStack.loadSlot_of_store hs, ?_⟩
  unfold followResize
  rw [if_pos rfl, Action.run_bind_of_ok (Guard.run_storeNullReturn_of_ok hs)]

theorem run_followResize_of_stay (hslots : 0 < g.shadow.frameSlots) (hz : ptr ≠ 0) (size : Word)
    (old : Metadata) :
    ∃ shadow, shadow.loadSlot 0 = .ok ⟨ptr, saturatingAdd ptr size, old.key, old.lock⟩ ∧
      (followResize ptr size ptr old).run g = (.ok (), { g with shadow }) := by
  obtain ⟨shadow, hs⟩ :=
    g.shadow.storeSlot_of_lt hslots ⟨ptr, saturatingAdd ptr size, old.key, old.lock⟩
  refine ⟨shadow, ShadowStack.loadSlot_of_store hs, ?_⟩
  unfold followResize
  rw [if_neg hz, if_neg (not_not.mpr rfl)]
  exact Guard.run_storeReturn_of_ok hs

theorem run_followResize_of_move {l : Lifetimes} {n : Nat} (hl : g.lifetimes = some l)
    (hslots : 0 < g.shadow.frameSlots) (hlazy : g.trie.policy = .lazy) (hz : result ≠ 0)
    (hm : ptr ≠ result) (hcopy : (g.trie.copyMetadata result ptr (keptBytes old size)).1 = .ok n)
    (hmove : (l.relocate ptr result old.key).1 = .ok ()) :
    ∃ g', (followResize ptr size result old).run g = (.ok (), g') ∧
      g'.shadow.loadSlot 0 = .ok ⟨result, saturatingAdd result size, old.key, old.lock⟩ ∧
      g'.lifetimes = some (l.relocate ptr result old.key).2 ∧
      g'.trie = (g.trie.copyMetadata result ptr (keptBytes old size)).2 := by
  obtain ⟨shadow, hs⟩ :=
    g.shadow.storeSlot_of_lt hslots ⟨result, saturatingAdd result size, old.key, old.lock⟩
  obtain ⟨metrics, hcopied⟩ := Guard.run_copyMetadata_of_ok hcopy
  let copied : Guard .combined :=
    { g with trie := (g.trie.copyMetadata result ptr (keptBytes old size)).2, metrics }
  let moved : Guard .combined :=
    { copied with lifetimes := some (l.relocate ptr result old.key).2 }
  have hrelocate : (Guard.relocate ptr result old.key).run copied = (.ok (), moved) := by
    rw [Guard.run_relocate (g := copied) hl, hmove]
  refine ⟨{ moved with shadow }, ?_, ShadowStack.loadSlot_of_store hs, rfl, rfl⟩
  unfold followResize
  rw [if_neg hz, if_pos hm, Action.run_bind_of_ok (Guard.run_preallocate_of_lazy hlazy result),
    Action.run_bind_of_ok hcopied, Action.run_bind_of_ok hrelocate]
  exact Guard.run_storeReturn_of_ok hs

theorem answer_realloc (hz : ptr ≠ 0) (hs : s.guard.shadow.loadSlot 1 = .ok old)
    (h : (followResize ptr size result old).run s.guard = (.ok (), g')) :
    (answer (.realloc ptr size result)).run s = (.ok (.word result), { s with guard := g' }) := by
  have hload : (withGuard (Guard.loadSlot 1)).run s = (.ok old, s) :=
    run_withGuard_of_ok (Guard.run_loadSlot_of_ok hs)
  have hresize : (realloc ptr size result).run s = (.ok result, { s with guard := g' }) := by
    rw [realloc, if_neg hz, Action.run_bind_of_ok hload,
      Action.run_bind_of_ok (run_withGuard_of_ok h)]
    rfl
  have hanswer : answer (.realloc ptr size result)
      = (realloc ptr size result >>= fun block => pure (Reply.word block)) := rfl
  rw [hanswer, Action.run_bind_of_ok hresize]
  rfl

/-- What faithful runs keep under the standard configuration. -/
structure Ready (s : Session) (w : Watched) : Prop where
  lifetimes : s.guard.lifetimes = some w.lifetimes
  kept : Kept w
  freeMap : ∃ m, w.lifetimes.freeMap = some m
  policy : s.guard.trie.policy = .lazy
  supplied : s.guard.trie.Supplied Config.standard.primaryEntries
    (Finset.range Config.standard.primaryEntries)

theorem ready_after {start : Guard .combined} {l : Lifetimes} {r : Reporter} {calls : List Call}
    (hc : Guard.create host Config.standard = .ok start) (hl : start.lifetimes = some l)
    (hends : Runs.Always Session.step GoesOn ⟨start, r⟩ calls)
    (hfaithful : Runs.Always Watched.step Watched.Faithful l.watched
      (Session.requestsOf ⟨start, r⟩ calls)) :
    Ready (Session.after ⟨start, r⟩ calls)
      (l.watched.after (Session.requestsOf ⟨start, r⟩ calls)) := by
  obtain ⟨hpolicy, hlife, hmap, _⟩ := standard_of_goesOn hc hl hends
  obtain ⟨_, htrie, hcreate⟩ := Guard.create_eq_ok hc
  obtain ⟨l', hl', hcl⟩ := hcreate rfl
  cases hl.symm.trans hl'
  have hgrown := (after_makes hends).2.trie.grown
  have hlen := hgrown.len
  rw [Trie.create_eq_ok htrie] at hlen
  refine ⟨hlife, Lifetimes.kept_after (by decide) hcl hfaithful, hmap, hpolicy,
    hgrown.directory (Trie.directory_create htrie), hlen, fun _ => Finset.mem_range.mp, ?_, ?_⟩
  · intro i hi
    obtain ⟨_, htable⟩ := Option.isSome_iff_exists.mp (Trie.mem_installed.mp hi)
    exact Finset.mem_range.mpr ((Trie.lt_of_tableOf htable).trans_eq hlen)
  · rw [Finset.card_range]
    decide

/-- As long as the key counter does not wrap, live blocks have other keys than zero. -/
theorem key_ne_zero_of_held {start : Guard .combined} {l : Lifetimes} {rs : List Lifetimes.Request}
    (hc : Guard.create host Config.standard = .ok start) (hl : start.lifetimes = some l)
    (hkeys : l.keysDrawn rs < 2 ^ 64 - 2) (hheld : ⟨ptr, ⟨key, lock⟩⟩ ∈ (l.watched.after rs).held) :
    key ≠ 0 := by
  obtain ⟨_, _, hcreate⟩ := Guard.create_eq_ok hc
  obtain ⟨l', hl', hcl⟩ := hcreate rfl
  cases hl.symm.trans hl'
  have hfirst := Lifetimes.toNat_nextKey_create hcl
  have hlive := Lifetimes.key_ne_zero_after (w := l.watched)
    (Lifetimes.placed_create hcl) (Lifetimes.keyed_create hcl) (by
      show l.nextKey.toNat + l.keysDrawn rs < 2 ^ 64
      omega) (fun lease hm => by cases hm)
  exact hlive ⟨key, lock⟩ (List.mem_map_of_mem (f := Holding.lease) hheld)

theorem toNat_keptBytes (hlt : ptr < bound) (key lock size : Word) :
    (keptBytes ⟨ptr, bound, key, lock⟩ size).toNat
      = min (bound.toNat - ptr.toNat) size.toNat := by
  rw [UInt64.lt_iff_toNat_lt] at hlt
  have hlength := toNat_saturatingSub bound ptr
  have hne : saturatingSub bound ptr ≠ 0 := by
    intro hz
    rw [hz, UInt64.toNat_zero] at hlength
    omega
  unfold keptBytes
  rw [if_neg hne, ← hlength]
  exact UInt64.toNat_min ..

theorem toNat_saturatingAdd {a b : Word} (h : a.toNat + b.toNat < 2 ^ 64) :
    saturatingAdd a b = a + b := by
  rw [← UInt64.toNat_inj, saturatingAdd, toNat_clampWord, UInt64.toNat_add, Nat.mod_eq_of_lt h]
  omega

namespace Ready

theorem refused (h : Ready s w) (hslots : 0 < s.guard.shadow.frameSlots) (hsize : size ≠ 0) :
    ∃ g, (followResize ptr size 0 old).run s.guard = (.ok (), g) ∧
      g.shadow.loadSlot 0 = .ok .unknown ∧ g.trie = s.guard.trie ∧ ∀ x ∈ w.held, g.Upholds x := by
  obtain ⟨shadow, hload, hrun⟩ := run_followResize_of_null hslots ptr size old
  rw [if_neg hsize] at hrun
  exact ⟨_, hrun, hload, rfl, fun x hx =>
    Guard.upholds_of_held (g := { s.guard with shadow }) h.kept h.lifetimes hx⟩

theorem dropped (h : Ready s w) (hslots : 0 < s.guard.shadow.frameSlots)
    (hheld : ⟨ptr, ⟨key, lock⟩⟩ ∈ w.held) :
    ∃ g, (followResize ptr 0 0 ⟨ptr, bound, key, lock⟩).run s.guard = (.ok (), g) ∧
      g.shadow.loadSlot 0 = .ok .unknown ∧ g.trie = s.guard.trie ∧
      (∀ x ∈ w.held, x.lease ≠ ⟨key, lock⟩ → g.Upholds x) ∧
      (key ≠ 0 → ((Guard.checkTemporal key lock).run g).1 ≠ .ok ()) := by
  obtain ⟨m, hm⟩ := h.freeMap
  obtain ⟨free, hd⟩ := h.kept.divided
  have hlease : ⟨key, lock⟩ ∈ w.leases := List.mem_map_of_mem hheld
  obtain ⟨l', hl'⟩ := (h.kept.deallocate_iff hm).mpr (Or.inl hheld)
  have hserve : w.lifetimes.serve (.deallocate ptr key lock) = (.ok none, l') := by
    rw [Lifetimes.serve, hl']
  have hstep : w.step (.deallocate ptr key lock)
      = ⟨l', w.held.filter (·.lease ≠ ⟨key, lock⟩)⟩ := by
    rw [Watched.step, Lifetimes.step, hserve, Lifetimes.note]
  have hkept : Kept ⟨l', w.held.filter (·.lease ≠ ⟨key, lock⟩)⟩ := by
    rw [← hstep]
    exact h.kept.step hheld
  obtain ⟨shadow, hload, hrun⟩ := run_followResize_of_null hslots ptr 0 ⟨ptr, bound, key, lock⟩
  obtain ⟨metrics, hfree⟩ := Guard.run_deallocate_of_ok (g := { s.guard with shadow }) h.lifetimes hl'
  rw [if_pos rfl, hfree] at hrun
  refine ⟨_, hrun, hload, rfl, fun x hx hne => ?_, fun hkey hcheck => ?_⟩
  · exact Guard.upholds_of_held hkept rfl (List.mem_filter.mpr ⟨hx, decide_eq_true hne⟩)
  · have hchange := Lifetimes.change_deallocate w.lifetimes ptr key lock
    rw [hserve] at hchange
    have hcell := hchange.cell?_of_deallocate h.kept.placed
    rcases (Guard.checkTemporal_eq_ok_iff rfl).mp hcheck with ⟨hlock, _⟩ | hpass
    · exact h.kept.lock_ne_zero hlease hlock
    · cases hcell.symm.trans (Lifetimes.check_eq_ok_iff.mp hpass)
      exact hkey rfl

theorem stayed (h : Ready s w) (hslots : 0 < s.guard.shadow.frameSlots) (hz : ptr ≠ 0)
    (size : Word) (old : Metadata) :
    ∃ g, (followResize ptr size ptr old).run s.guard = (.ok (), g) ∧
      g.shadow.loadSlot 0 = .ok ⟨ptr, saturatingAdd ptr size, old.key, old.lock⟩ ∧
      g.trie = s.guard.trie ∧ ∀ x ∈ w.held, g.Upholds x := by
  obtain ⟨shadow, hload, hrun⟩ := run_followResize_of_stay hslots hz size old
  exact ⟨_, hrun, hload, rfl, fun x hx =>
    Guard.upholds_of_held (g := { s.guard with shadow }) h.kept h.lifetimes hx⟩

/-- The words that a resize keeps are copied, wherever the block goes below 2^48. -/
theorem copies (h : Ready s w) (hlt : ptr < bound) (halign : ptr.toNat % 8 = 0)
    (hfit : result.toNat + size.toNat ≤ 2 ^ 48) :
    (s.guard.trie.copyMetadata result ptr (keptBytes ⟨ptr, bound, key, lock⟩ size)).1
      = .ok (min (bound.toNat - ptr.toNat) size.toNat / 8) := by
  have hbound := bound.toNat_lt
  have hkept := toNat_keptBytes hlt key lock size
  have hwords : Trie.movedWords ptr (keptBytes ⟨ptr, bound, key, lock⟩ size)
      = min (bound.toNat - ptr.toNat) size.toNat / 8 := by
    rw [Trie.movedWords, if_pos halign, hkept]
  rw [← hwords]
  refine (h.supplied.copyMetadata fun j hj => Finset.mem_range.mpr ?_).1 (Or.inr ?_)
  · rw [hkept] at hj
    show (result.toNat / 8 + j) / 4194304 < 8388608
    omega
  · rw [hwords, Trie.lastWord, Trie.lastWord]
    rw [UInt64.lt_iff_toNat_lt] at hlt
    omega

theorem moved (h : Ready s w) (hslots : 0 < s.guard.shadow.frameSlots) (hlt : ptr < bound)
    (halign : ptr.toNat % 8 = 0) (hheld : ⟨ptr, ⟨key, lock⟩⟩ ∈ w.held)
    (honly : ∀ x ∈ w.held, x.addr = ptr → x.lease = ⟨key, lock⟩) (hz : result ≠ 0)
    (hm : result ≠ ptr) (hfit : result.toNat + size.toNat ≤ 2 ^ 48) :
    ∃ g, (followResize ptr size result ⟨ptr, bound, key, lock⟩).run s.guard = (.ok (), g) ∧
      g.shadow.loadSlot 0 = .ok ⟨result, saturatingAdd result size, key, lock⟩ ∧
      g.trie = (s.guard.trie.copyMetadata result ptr
        (keptBytes ⟨ptr, bound, key, lock⟩ size)).2 ∧
      (∀ x ∈ w.held, x.lease ≠ ⟨key, lock⟩ → g.Upholds x) ∧
      g.Upholds ⟨result, ⟨key, lock⟩⟩ ∧
      ((Guard.deallocate ptr key lock).run g).1 = .error (.invalidFree ptr key) := by
  obtain ⟨m, hmap⟩ := h.freeMap
  have hmarker : isMarker result = false := by
    refine FreeMap.isMarker_eq_false_iff.mpr ⟨hz, fun ht => ?_⟩
    rw [ht] at hfit
    have htop : tombstone.toNat = 2 ^ 64 - 1 := by decide
    omega
  obtain ⟨hok, rest, hold, hnew, hrest⟩ := h.kept.relocate_only hmap hheld honly hmarker
  have hkept := h.kept.step (r := .relocate ptr result key) ⟨_, hheld, rfl, rfl⟩
  obtain ⟨m', hmap'⟩ : ∃ m', (w.step (.relocate ptr result key)).lifetimes.freeMap = some m' :=
    Option.isSome_iff_exists.mp
      ((w.change _).freeMap_isSome.trans (Option.isSome_iff_exists.mpr ⟨m, hmap⟩))
  have hmoved : ⟨result, ⟨key, lock⟩⟩ ∈ (w.step (.relocate ptr result key)).held :=
    hnew.mem_iff.mpr (List.mem_cons_self ..)
  have hlife : (w.step (.relocate ptr result key)).lifetimes
      = (w.lifetimes.relocate ptr result key).2 :=
    w.lifetimes.step_relocate ptr result key
  obtain ⟨g, hrun, hload, hl, htrie⟩ := run_followResize_of_move h.lifetimes hslots h.policy hz
    (Ne.symm hm) (h.copies hlt halign hfit) hok
  rw [← hlife] at hl
  refine ⟨g, hrun, hload, htrie, fun x hx hne => ?_, Guard.upholds_of_held hkept hl hmoved, ?_⟩
  · have hr : x ∈ rest :=
      (List.mem_cons.mp (hold.mem_iff.mp hx)).resolve_left fun heq => hne (heq ▸ rfl)
    exact Guard.upholds_of_held hkept hl (hnew.mem_iff.mpr (List.mem_cons_of_mem _ hr))
  · refine congrArg Prod.fst (Guard.run_deallocate_of_error hl ?_)
    refine hkept.deallocate_elsewhere hmap' (List.mem_map_of_mem hmoved) fun x hx => ?_
    rcases List.mem_cons.mp (hnew.mem_iff.mp hx) with rfl | hr
    · exact hm
    · exact hrest x hr

end Ready

/-- A resize of the only live block at its address keeps its lease and the entries of the words that
both sizes have, wherever the block is then. -/
theorem resize_keeps_identity {start : Guard .combined} {l : Lifetimes} {r : Reporter}
    {calls : List Call} (hc : Guard.create host Config.standard = .ok start)
    (hl : start.lifetimes = some l) (hends : Runs.Always Session.step GoesOn ⟨start, r⟩ calls)
    (hfaithful : Runs.Always Watched.step Watched.Faithful l.watched
      (Session.requestsOf ⟨start, r⟩ calls)) (size result : Word) :
    let s := Session.after ⟨start, r⟩ calls
    let w := l.watched.after (Session.requestsOf ⟨start, r⟩ calls)
    s.guard.shadow.loadSlot 1 = .ok ⟨ptr, bound, key, lock⟩ → ptr < bound → ptr.toNat % 8 = 0 →
    ⟨ptr, ⟨key, lock⟩⟩ ∈ w.held → (∀ x ∈ w.held, x.addr = ptr → x.lease = ⟨key, lock⟩) →
    (result = 0 ∨ (result = ptr ∨ ∀ x ∈ w.held, x.addr ≠ result) ∧
      result.toNat + size.toNat ≤ 2 ^ 48) →
    let kept := min (bound.toNat - ptr.toNat) size.toNat / 8
    ∃ g, (answer (.realloc ptr size result)).run s = (.ok (.word result), { s with guard := g }) ∧
      g.shadow.loadSlot 0
        = .ok (if result = 0 then .unknown else ⟨result, result + size, key, lock⟩) ∧
      (if result = 0 then
        if size = 0 then
          l.keysDrawn (Session.requestsOf ⟨start, r⟩ calls) < 2 ^ 64 - 2 →
            ((Guard.checkTemporal key lock).run g).1 ≠ .ok ()
        else g.Upholds ⟨ptr, ⟨key, lock⟩⟩
      else
        g.Upholds ⟨result, ⟨key, lock⟩⟩ ∧
        (result ≠ ptr →
          ((Guard.deallocate ptr key lock).run g).1 = .error (.invalidFree ptr key) ∧
          ∀ i < kept, g.trie.load (Trie.wordAt result i) = s.guard.trie.load (Trie.wordAt ptr i))) ∧
      (∀ x ∈ w.held, x.lease ≠ ⟨key, lock⟩ → g.Upholds x) ∧
      ∀ a, result = 0 ∨ result = ptr ∨ (∀ i < kept, wordOf a ≠ wordOf result + i) →
        g.trie.load a = s.guard.trie.load a := by
  intro s w hslot hlt halign hheld honly hresult kept
  have hready : Ready s w := ready_after hc hl hends hfaithful
  obtain ⟨m, hm⟩ := hready.freeMap
  have hz : ptr ≠ 0 := (FreeMap.isMarker_eq_false_iff.mp (hready.kept.isMarker_addr hm hheld)).1
  have hslots : 0 < s.guard.shadow.frameSlots :=
    Nat.zero_lt_of_lt (ShadowStack.lt_of_loadSlot hslot)
  by_cases hr : result = 0
  · subst hr
    by_cases hsize : size = 0
    · subst hsize
      obtain ⟨g, hrun, hload, htrie, hothers, hgone⟩ := hready.dropped hslots hheld
      refine ⟨g, answer_realloc hz hslot hrun, hload, fun hkeys => hgone ?_, hothers, fun a _ => ?_⟩
      · exact key_ne_zero_of_held hc hl hkeys hheld
      · rw [htrie]
    · obtain ⟨g, hrun, hload, htrie, hall⟩ := hready.refused hslots hsize
      refine ⟨g, answer_realloc hz hslot hrun, hload, ?_, fun x hx _ => hall x hx, fun a _ => ?_⟩
      · rw [if_pos rfl, if_neg hsize]
        exact hall _ hheld
      · rw [htrie]
  · obtain ⟨hplace, hfit⟩ := hresult.resolve_left hr
    have hbound : saturatingAdd result size = result + size := toNat_saturatingAdd (by omega)
    simp only [if_neg hr]
    by_cases hp : result = ptr
    · subst hp
      obtain ⟨g, hrun, hload, htrie, hall⟩ := hready.stayed hslots hz size
        ⟨result, bound, key, lock⟩
      rw [hbound] at hload
      refine ⟨g, answer_realloc hz hslot hrun, hload, ⟨hall _ hheld, fun hne => absurd rfl hne⟩,
        fun x hx _ => hall x hx, fun a _ => ?_⟩
      rw [htrie]
    · obtain ⟨g, hrun, hload, htrie, hothers, hlive, hold⟩ :=
        hready.moved hslots hlt halign hheld honly hr hp hfit
      rw [hbound] at hload
      obtain ⟨hmoved, hsame⟩ := Trie.load_copyMetadata (Trie.trimmed_of_sound hready.supplied.toSound)
        (hready.copies hlt halign hfit)
      rw [← htrie] at hmoved hsame
      refine ⟨g, answer_realloc hz hslot hrun, hload, ⟨hlive, fun _ => ⟨hold, hmoved⟩⟩, hothers,
        fun a ha => hsame a ?_⟩
      exact (ha.resolve_left hr).resolve_left hp

/-- A block with an entry in its second word grows and moves. -/
theorem resize_keeps_identity_of_grown_block :
    ∃ start : Guard .combined, Guard.create .standard Config.standard = .ok start ∧
      let r : Reporter := { policy := .silent, exitCode := 73, executable := "app", backtrace := "" }
      let s := Session.after ⟨start, r⟩ [.pushFrame 2, .malloc 0x20 0x500000000000,
        .storeSlot 1 ⟨0x500000000000, 0x500000000020, 2, heapLocksAddr⟩,
        .storeMetadata 0x500000000008 ⟨1, 2, 3, 4⟩]
      ∃ g, (answer (.realloc 0x500000000000 0x40 0x500100000000)).run s
          = (.ok (.word 0x500100000000), { s with guard := g }) ∧
        g.shadow.loadSlot 0 = .ok ⟨0x500100000000, 0x500100000040, 2, heapLocksAddr⟩ ∧
        g.Upholds ⟨0x500100000000, ⟨2, heapLocksAddr⟩⟩ ∧
        ((Guard.deallocate 0x500000000000 2 heapLocksAddr).run g).1
          = .error (.invalidFree 0x500000000000 2) ∧
        g.trie.load 0x500100000008 = ⟨1, 2, 3, 4⟩ := by
  have hc : (Guard.create .standard Config.standard : Except _ (Guard .combined)) = .ok _ := rfl
  refine ⟨_, hc, ?_⟩
  intro r s
  have hslot : s.guard.shadow.loadSlot 1
      = .ok ⟨0x500000000000, 0x500000000020, 2, heapLocksAddr⟩ := by decide +kernel
  have hstored : s.guard.trie.load (Trie.wordAt 0x500000000000 1) = ⟨1, 2, 3, 4⟩ := by
    decide +kernel
  obtain ⟨g, hrun, hload, hblock, _⟩ := resize_keeps_identity hc rfl
    (always_goesOn (s := ⟨_, r⟩) (by decide) [.pushFrame 2, .malloc 0x20 0x500000000000,
      .storeSlot 1 ⟨0x500000000000, 0x500000000020, 2, heapLocksAddr⟩,
      .storeMetadata 0x500000000008 ⟨1, 2, 3, 4⟩]) ⟨trivial, trivial⟩ 0x40 0x500100000000 hslot
    (by decide) (by decide) (by decide +kernel) (by decide +kernel)
    (Or.inr ⟨Or.inr (by decide +kernel), by decide⟩)
  rw [if_neg (by decide)] at hload hblock
  obtain ⟨hold, hentries⟩ := hblock.2 (by decide)
  exact ⟨g, hrun, hload, hblock.1, hold, (hentries 1 (by decide)).trans hstored⟩

end Session

end PointerGuard
