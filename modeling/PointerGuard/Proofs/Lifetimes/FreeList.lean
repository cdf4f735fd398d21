import PointerGuard.Proofs.Extents

namespace PointerGuard

theorem perm_cons_filter_ne {α : Type} [DecidableEq α] {x : α} {xs : List α} (hn : xs.Nodup)
    (hx : x ∈ xs) : xs.Perm (x :: xs.filter (· ≠ x)) := by
  have herase := hn.erase_eq_filter x
  simp only [bne, beq_eq_decide] at herase
  simpa [herase] using List.perm_cons_erase hx

namespace LockArena

variable {a b : LockArena} {held : List Lease} {free out : List Nat} {i : Nat}

theorem acquire_eq_ok (h : a.acquire = .ok (i, b)) :
    (a.freeHead ≠ linkEnd ∧ i = a.freeHead ∧ b = { a with freeHead := a.links.get a.freeHead }) ∨
      (a.freeHead = linkEnd ∧ a.bump ≠ a.cells.len ∧ i = a.bump ∧
        b = { a with bump := a.bump + 1 }) := by
  unfold acquire at h
  split at h
  next hf =>
    cases Except.ok.inj h
    exact Or.inl ⟨hf, rfl, rfl⟩
  next hf =>
    split at h
    next => simp at h
    next hb =>
      cases Except.ok.inj h
      exact Or.inr ⟨not_not.mp hf, hb, rfl, rfl⟩

theorem acquire_keeps (h : a.acquire = .ok (i, b)) : b.base = a.base ∧ b.cells = a.cells := by
  rcases acquire_eq_ok h with ⟨_, _, rfl⟩ | ⟨_, _, _, rfl⟩ <;> exact ⟨rfl, rfl⟩

theorem acquire_addrOf (h : a.acquire = .ok (i, b)) (j : Nat) : b.addrOf j = a.addrOf j := by
  rcases acquire_eq_ok h with ⟨_, _, rfl⟩ | ⟨_, _, _, rfl⟩ <;> rfl

theorem observe_of_set {w : Word} (hb : b.base = a.base) (hc : b.cells = a.cells.set i w)
    (lock : Word) :
    b.observe lock = if a.indexOf lock = some i then some w else a.observe lock := by
  have hx : b.indexOf lock = a.indexOf lock := by
    rw [indexOf, extent, hb, hc]
    rfl
  rw [observe, observe, hx, hc]
  cases hi : a.indexOf lock with
  | none => rfl
  | some j =>
    rw [Option.map_some, Table.get_set]
    by_cases hj : j = i <;> simp [hj]

theorem observe_release {lock : Word} (h : a.indexOf lock = some i) :
    (a.release i).observe lock = some 0 := by
  rw [observe_of_set (a := a) (b := a.release i) rfl rfl, if_pos h]

/-- From `head`, the links lead through these cells to the end of the list. -/
inductive Chain (links : Table Nat) : Nat → List Nat → Prop
  | done : Chain links linkEnd []
  | link {i : Nat} {is : List Nat} : i ≠ linkEnd → Chain links (links.get i) is →
      Chain links i (i :: is)

theorem Chain.set {links : Table Nat} {head : Nat} {is : List Nat} (h : Chain links head is)
    (hi : i ∉ is) (next : Nat) : Chain (links.set i next) head is := by
  induction h with
  | done => exact .done
  | @link j is hj _ ih =>
    have hne : j ≠ i := fun heq => hi (heq ▸ List.mem_cons_self ..)
    refine .link hj ?_
    rw [Table.get_set_of_ne hne]
    exact ih fun hm => hi (List.mem_cons_of_mem _ hm)

/-- The number of a cell fits into a link. -/
theorem freeHead_release (a : LockArena) (hi : i < linkEnd) : (a.release i).freeHead = i := by
  simp only [linkEnd] at hi
  exact Nat.mod_eq_of_lt (by omega)

/-- A cell that is released heads the list. -/
theorem Chain.release (h : Chain a.links a.freeHead free) (hi : i ∉ free) (hlt : i < linkEnd) :
    Chain (a.release i).links (a.release i).freeHead (i :: free) := by
  rw [freeHead_release a hlt]
  refine .link (Nat.ne_of_lt hlt) ?_
  show Chain (a.links.set i a.freeHead) ((a.links.set i a.freeHead).get i) free
  rw [Table.get_set_self]
  exact h.set hi _

theorem Chain.of_ne {links : Table Nat} {head : Nat} {is : List Nat} (h : Chain links head is)
    (hne : head ≠ linkEnd) : ∃ js, is = head :: js ∧ Chain links (links.get head) js := by
  cases h with
  | done => exact absurd rfl hne
  | link _ ht => exact ⟨_, rfl, ht⟩

theorem Chain.eq_nil {links : Table Nat} {head : Nat} {is : List Nat} (h : Chain links head is)
    (he : head = linkEnd) : is = [] := by
  cases h with
  | done => rfl
  | link hne _ => exact absurd he hne

/-- The leases of `held` have a cell each, `free` is the free list, and the cells of `out` are
taken, but no lease has them. -/
structure Divided (a : LockArena) (held : List Lease) (free out : List Nat) : Prop where
  fits : a.extent.Fits
  small : a.cells.len ≤ linkEnd
  room : a.bump ≤ a.cells.len
  chain : Chain a.links a.freeHead free
  shares : ((out ++ free).map some ++ held.map fun h => a.indexOf h.lock).Perm
    ((List.range a.bump).map some)
  live : ∀ h ∈ held, a.observe h.lock = some h.key
  idle : ∀ i, i ∈ free ∨ a.bump ≤ i → a.cells.get i = 0

namespace Divided

theorem nodup (h : a.Divided held free out) :
    ((out ++ free).map some ++ held.map fun h => a.indexOf h.lock).Nodup :=
  h.shares.nodup_iff.mpr (List.nodup_range.map fun _ _ => Option.some.inj)

theorem lt_bump (h : a.Divided held free out) (hi : i ∈ out ++ free) : i < a.bump := by
  have hm := h.shares.mem_iff.mp (List.mem_append_left _ (List.mem_map_of_mem hi))
  simpa using hm

theorem exists_cell (h : a.Divided held free out) {lease : Lease} (hl : lease ∈ held) :
    ∃ i < a.bump, a.indexOf lease.lock = some i ∧ a.cells.get i = lease.key ∧ i ∉ out ++ free := by
  obtain ⟨i, hi, hkey⟩ := Option.map_eq_some_iff.mp (h.live lease hl)
  have hmem : some i ∈ held.map fun h => a.indexOf h.lock := List.mem_map.mpr ⟨lease, hl, hi⟩
  have hlt := h.shares.mem_iff.mp (List.mem_append_right _ hmem)
  refine ⟨i, by simpa using hlt, hi, hkey, fun hm => ?_⟩
  exact (List.disjoint_of_nodup_append h.nodup) (List.mem_map_of_mem hm) hmem

theorem free_nodup (h : a.Divided held free out) : free.Nodup :=
  (List.nodup_append.mp (List.Nodup.of_map _ (List.nodup_append.mp h.nodup).1)).2.1

/-- No two leases have one cell. -/
theorem locks_nodup (h : a.Divided held free out) : (held.map Lease.lock).Nodup := by
  refine List.Nodup.of_map a.indexOf ?_
  rw [List.map_map]
  exact (List.nodup_append.mp h.nodup).2.1

theorem create {base : Word} {len : Nat} (hf : Extent.Fits ⟨base, 8, len⟩) (hs : len ≤ linkEnd) :
    Divided { base, cells := { len }, links := { len } } [] [] [] where
  fits := hf
  small := hs
  room := Nat.zero_le _
  chain := .done
  shares := by simp
  live := by simp
  idle _ _ := Table.get_empty ..

/-- A cell that no lease has is on the free list, or was never given out. -/
theorem unheld (h : a.Divided held free []) {lock : Word} (hi : a.indexOf lock = some i)
    (hu : lock ∉ held.map Lease.lock) : i ∈ free ∨ a.bump ≤ i := by
  by_cases hlt : i < a.bump
  · have hm := h.shares.mem_iff.mpr (List.mem_map_of_mem (List.mem_range.mpr hlt))
    rcases List.mem_append.mp hm with hm | hm
    · exact Or.inl (by simpa using hm)
    · obtain ⟨lease, hl, hil⟩ := List.mem_map.mp hm
      obtain ⟨_, rfl⟩ := (Extent.indexOf_eq_some_iff h.fits).mp hi
      obtain ⟨_, heq⟩ := (Extent.indexOf_eq_some_iff h.fits).mp hil
      exact absurd (heq ▸ List.mem_map_of_mem hl) hu
  · exact Or.inr (Nat.le_of_not_lt hlt)

/-- A cell holds the key of the lease that has it, and zero if none has it. -/
theorem observe_eq_some_iff (h : a.Divided held free []) {key lock : Word} :
    a.observe lock = some key ↔
      ⟨key, lock⟩ ∈ held ∨ key = 0 ∧ (a.indexOf lock).isSome ∧ lock ∉ held.map Lease.lock := by
  constructor
  · intro ho
    by_cases hm : lock ∈ held.map Lease.lock
    · obtain ⟨lease, hl, rfl⟩ := List.mem_map.mp hm
      cases (h.live lease hl).symm.trans ho
      exact Or.inl hl
    · obtain ⟨i, hi, rfl⟩ := Option.map_eq_some_iff.mp ho
      exact Or.inr ⟨h.idle i (h.unheld hi hm), by simp [hi], hm⟩
  · rintro (hl | ⟨rfl, hs, hu⟩)
    · exact h.live _ hl
    · obtain ⟨i, hi⟩ := Option.isSome_iff_exists.mp hs
      exact Option.map_eq_some_iff.mpr ⟨i, hi, h.idle i (h.unheld hi hu)⟩

theorem acquire (h : a.Divided held free []) (ha : a.acquire = .ok (i, b)) :
    ∃ free', b.Divided held free' [i] := by
  rcases acquire_eq_ok ha with ⟨hf, rfl, rfl⟩ | ⟨hf, hb, rfl, rfl⟩
  · obtain ⟨is, rfl, htail⟩ := h.chain.of_ne hf
    refine ⟨is, h.fits, h.small, h.room, htail, h.shares, h.live, fun j hj => h.idle j ?_⟩
    exact hj.imp_left (List.mem_cons_of_mem _)
  · obtain rfl := h.chain.eq_nil hf
    have hroom := h.room
    refine ⟨[], h.fits, h.small, by simp only; omega, h.chain, ?_, h.live, fun j hj => ?_⟩
    · simp only [List.range_succ, List.map_append]
      exact (h.shares.cons (some a.bump)).trans (List.perm_append_singleton _ _).symm
    · rcases hj with hj | hj
      · cases hj
      · exact h.idle j (Or.inr (Nat.le_of_succ_le hj))

theorem not_mem_free (h : a.Divided held free [i]) : i ∉ free :=
  (List.nodup_cons.mp (List.Nodup.of_map _ (List.nodup_append.mp h.nodup).1)).1

theorem assign (h : a.Divided held free [i]) (key : Word) :
    (a.assign i key).Divided (⟨key, a.addrOf i⟩ :: held) free [] := by
  have hroom := h.room
  have hlt := h.lt_bump (List.mem_append_left _ (List.mem_singleton_self i))
  have hi : a.indexOf (a.addrOf i) = some i :=
    Extent.indexOf_addrOf h.fits (by simp only [extent]; omega)
  refine ⟨h.fits, h.small, h.room, h.chain, ?_, ?_, ?_⟩
  · show (free.map some ++ a.indexOf (a.addrOf i) :: held.map fun h => a.indexOf h.lock).Perm _
    rw [hi]
    exact List.perm_middle.trans h.shares
  · intro lease hl
    show (a.indexOf lease.lock).map (a.cells.set i key).get = some lease.key
    rcases List.mem_cons.mp hl with rfl | hl
    · simp [hi]
    · obtain ⟨j, _, hj, hkey, hout⟩ := h.exists_cell hl
      obtain ⟨hne, _⟩ : j ≠ i ∧ j ∉ free := by simpa using hout
      rw [hj, Option.map_some, Table.get_set_of_ne hne, hkey]
  · intro j hj
    have hne : j ≠ i := by
      rintro rfl
      rcases hj with hj | hj
      · exact h.not_mem_free hj
      · exact Nat.not_lt_of_le hj hlt
    exact (Table.get_set_of_ne hne ..).trans (h.idle j hj)

theorem release (h : a.Divided held free [i]) : (a.release i).Divided held (i :: free) [] := by
  have hroom := h.room
  have hsmall := h.small
  have hlt := h.lt_bump (List.mem_append_left _ (List.mem_singleton_self i))
  have hchain := h.chain.release h.not_mem_free (by omega)
  refine ⟨h.fits, h.small, h.room, hchain, h.shares, ?_, ?_⟩
  · intro lease hl
    obtain ⟨j, _, hj, hkey, hout⟩ := h.exists_cell hl
    obtain ⟨hne, _⟩ : j ≠ i ∧ j ∉ free := by simpa using hout
    show (a.indexOf lease.lock).map (a.cells.set i 0).get = some lease.key
    rw [hj, Option.map_some, Table.get_set_of_ne hne, hkey]
  · intro j hj
    show (a.cells.set i 0).get j = 0
    by_cases hji : j = i
    · rw [hji, Table.get_set_self]
    · rw [Table.get_set_of_ne hji]
      exact h.idle j (hj.imp_left fun hm => (List.mem_cons.mp hm).resolve_left hji)

/-- A lease that is given up leaves its cell to nobody. -/
theorem withdraw (h : a.Divided held free []) {lease : Lease} (hl : lease ∈ held)
    (hi : a.indexOf lease.lock = some i) : a.Divided (held.filter (· ≠ lease)) free [i] := by
  have hperm := perm_cons_filter_ne (List.Nodup.of_map _ h.locks_nodup) hl
  refine ⟨h.fits, h.small, h.room, h.chain, ?_, fun m hm => h.live m (List.mem_of_mem_filter hm),
    h.idle⟩
  calc (([i] ++ free).map some ++ (held.filter (· ≠ lease)).map fun h => a.indexOf h.lock).Perm
        (free.map some ++ (lease :: held.filter (· ≠ lease)).map fun h => a.indexOf h.lock) := by
        rw [List.map_cons, hi]
        exact List.perm_middle.symm
    _ |>.Perm (free.map some ++ held.map fun h => a.indexOf h.lock) :=
        (hperm.map _).symm.append_left _
    _ |>.Perm ((List.range a.bump).map some) := h.shares

end Divided

end LockArena

end PointerGuard
