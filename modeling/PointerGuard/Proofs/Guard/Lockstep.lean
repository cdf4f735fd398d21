import PointerGuard.Proofs.Guard.Requests
import PointerGuard.Proofs.Trie.Projection

namespace PointerGuard

/-- What an operation stores, copies to, preallocates or allocates lies below `limit`. -/
def Operation.Below (limit : Nat) : Operation → Prop
  | .storeMetadata addr _ => addr.toNat < limit
  | .attachProxy addr _ => addr.toNat < limit
  | .storeLane vector index _ => vector.toNat + 8 * index < limit
  | .registerStrings vector strings => ∀ i < strings.length, vector.toNat + 8 * i < limit
  | .copyMetadata dest _ len => len = 0 ∨ dest.toNat + len.toNat ≤ limit
  | .preallocate addr => addr.toNat < limit
  | .preallocateRange start len => len = 0 ∨ start.toNat + len.toNat ≤ limit
  | .allocate ptr => ptr.toNat < limit
  | .allocateObject ptr _ => ptr.toNat < limit
  | _ => True

/-- The operation may ask for a table for this segment. -/
def Operation.Touches : Operation → Nat → Prop
  | .preallocate addr, s => s ≤ segmentOf addr + 1 ∧ segmentOf addr ≤ s + 1
  | .allocate ptr, s => s ≤ segmentOf ptr + 1 ∧ segmentOf ptr ≤ s + 1
  | .allocateObject ptr _, s => s ≤ segmentOf ptr + 1 ∧ segmentOf ptr ≤ s + 1
  | .preallocateRange start len, s => segmentOf start ≤ s ∧ s ≤ Trie.lastSegment start len
  | op, s => ∃ k, op.Writes k ∧ s = k / segmentWords

/-- The segments that the operations may ask for tables for are in `S`, and there are numbers for
the tables of all of them. -/
structure Granted (reach : Nat) (S : Finset Nat) (ops : List Operation) : Prop where
  below : ∀ s ∈ S, s < reach
  enough : S.card ≤ tableLimit
  touched : ∀ op ∈ ops, ∀ s < reach, op.Touches s → s ∈ S

/-- A primary table with no more slots than there are numbers is granted whatever is asked for. -/
theorem granted_range {reach : Nat} (h : reach ≤ tableLimit) (ops : List Operation) :
    Granted reach (Finset.range reach) ops where
  below := fun _ => Finset.mem_range.mp
  enough := by rwa [Finset.card_range]
  touched := fun _ _ _ hs _ => Finset.mem_range.mpr hs

theorem Granted.mono {reach : Nat} {S : Finset Nat} {ops ops' : List Operation}
    (h : Granted reach S ops) (hsub : ∀ op ∈ ops', op ∈ ops) : Granted reach S ops' :=
  ⟨h.below, h.enough, fun op hop => h.touched op (hsub op hop)⟩

theorem segment_lt {reach a : Nat} (h : a < reach * segmentBytes) : a / 8 / segmentWords < reach := by
  have hbytes : 8 * segmentWords = segmentBytes := rfl
  rw [Nat.div_div_eq_div_mul, hbytes]
  exact Nat.div_lt_of_lt_mul (by rwa [Nat.mul_comm])

theorem segmentOf_lt {reach : Nat} {addr : Word} (h : addr.toNat < reach * segmentBytes) :
    segmentOf addr < reach := by
  rw [Trie.segmentOf_eq]
  exact segment_lt h

theorem lastSegment_lt {reach : Nat} {start len : Word} (hlen : len ≠ 0)
    (h : start.toNat + len.toNat ≤ reach * segmentBytes) : Trie.lastSegment start len < reach := by
  have hpos : 0 < len.toNat := by
    rw [Nat.pos_iff_ne_zero]
    exact fun hz => hlen (UInt64.toNat_inj.mp hz)
  rw [Trie.lastSegment]
  refine Nat.div_lt_of_lt_mul ?_
  rw [Nat.mul_comm]
  omega

theorem Operation.writes_lt {op : Operation} {reach k : Nat} (h : op.Below (reach * segmentBytes))
    (hk : op.Writes k) : k / segmentWords < reach := by
  have hlane {base : Word} {i : Nat} (hi : base.toNat + 8 * i < reach * segmentBytes) :
      (wordOf base + i) / segmentWords < reach := by
    have hlt := segment_lt hi
    rwa [Nat.add_mul_div_left _ _ (by omega)] at hlt
  cases op with
  | storeMetadata addr e =>
    cases hk
    exact segment_lt h
  | attachProxy addr proxy =>
    cases hk
    exact segment_lt h
  | storeLane vector index e =>
    cases hk
    exact hlane h
  | registerStrings vector strings =>
    obtain ⟨i, hi, rfl⟩ := hk
    exact hlane (h i hi)
  | copyMetadata dest src len =>
    obtain ⟨i, hi, rfl⟩ := hk
    rcases h with rfl | h
    · exact absurd hi (Nat.not_lt_zero i)
    · exact hlane (by omega)
  | _ => exact hk.elim

/-- Wherever `I` holds, the two steps answer the same, and `I` holds after them. -/
def Action.Lockstep {ε σ τ α : Type} (I : σ → τ → Prop) (act : Action ε σ α)
    (act' : Action ε τ α) : Prop :=
  ∀ s t, I s t → (act.run s).1 = (act'.run t).1 ∧ I (act.run s).2 (act'.run t).2

namespace Action.Lockstep

variable {ε σ τ α β : Type} {I : σ → τ → Prop}

theorem pure (a : α) : Lockstep I (pure a : Action ε σ α) (pure a) :=
  fun _ _ h => ⟨rfl, h⟩

theorem ask {f : σ → Except ε α} {f' : τ → Except ε α} (hf : ∀ s t, I s t → f s = f' t) :
    Lockstep I (Action.ask f) (Action.ask f') :=
  fun s t h => ⟨hf s t h, h⟩

theorem read {f : σ → α} {f' : τ → α} (hf : ∀ s t, I s t → f s = f' t) :
    Lockstep I (Action.read f : Action ε σ α) (Action.read f') :=
  fun s t h => ⟨congrArg Except.ok (hf s t h), h⟩

theorem orFail (e : ε) (o : Option α) :
    Lockstep I (Action.orFail e o : Action ε σ α) (Action.orFail e o) := by
  cases o with
  | none => exact fun _ _ h => ⟨rfl, h⟩
  | some a => exact fun _ _ h => ⟨rfl, h⟩

theorem bind {act : Action ε σ α} {act' : Action ε τ α} {next : α → Action ε σ β}
    {next' : α → Action ε τ β} (h : Lockstep I act act') (hn : ∀ a, Lockstep I (next a) (next' a)) :
    Lockstep I (act >>= next) (act' >>= next') := by
  intro s t hst
  obtain ⟨hr, hi⟩ := h s t hst
  cases ha : act.run s with
  | mk r s' =>
    cases ha' : act'.run t with
    | mk r' t' =>
      rw [ha, ha'] at hr hi
      cases hr
      cases r with
      | error e =>
        rw [Action.run_bind_of_error ha, Action.run_bind_of_error ha']
        exact ⟨rfl, hi⟩
      | ok a =>
        rw [Action.run_bind_of_ok ha, Action.run_bind_of_ok ha']
        exact hn a s' t' hi

/-- What comes after a test may rely on it. -/
theorem test_bind {x : Except ε α} {next : α → Action ε σ β} {next' : α → Action ε τ β}
    (hn : ∀ a, x = .ok a → Lockstep I (next a) (next' a)) :
    Lockstep I (Action.ask (fun _ => x) >>= next) (Action.ask (fun _ => x) >>= next') := by
  cases x with
  | error e => exact fun _ _ h => ⟨rfl, h⟩
  | ok a => exact fun s t h => hn a rfl s t h

end Action.Lockstep

namespace Guard

open PointerGuard.Action (Lockstep)

variable {mode wide : Mode} {f : Metadata → Metadata} {reach : Nat} {S : Finset Nat}
  {R : Guard mode → Guard wide → Prop} {addr dest src len : Word}

/-- Steps on the tries and counts do not matter to `R`. -/
structure Indifferent (R : Guard mode → Guard wide → Prop) : Prop where
  trie : ∀ {g g'} t u, R g g' → R { g with trie := t } { g' with trie := u }
  count : ∀ {g g'} c, R g g' →
    R { g with metrics := g.metrics.bump c } { g' with metrics := g'.metrics.bump c }

/-- The tries are beside each other, and the rest of the guards is as `R` says. -/
structure Alongside (f : Metadata → Metadata) (reach : Nat) (S : Finset Nat)
    (R : Guard mode → Guard wide → Prop) (g : Guard mode) (g' : Guard wide) : Prop where
  beside : Trie.Beside f reach S g.trie g'.trie
  rest : R g g'

section

variable (hR : Indifferent R)
include hR

theorem lockstep_count (c : Counter) :
    Lockstep (Alongside f reach S R) (count c) (count c) :=
  fun _ _ h => ⟨rfl, h.beside, hR.count c h.rest⟩

theorem lockstep_onTrie {α : Type} {act : Action Violation (Trie mode) α}
    {act' : Action Violation (Trie wide) α}
    (h : ∀ t u, Trie.Beside f reach S t u → (act.run t).1 = (act'.run u).1 ∧
      Trie.Beside f reach S (act.run t).2 (act'.run u).2) :
    Lockstep (Alongside f reach S R) (onTrie act) (onTrie act') := by
  intro g g' hg
  obtain ⟨hanswer, hb⟩ := h _ _ hg.beside
  exact ⟨hanswer, hb, hR.trie _ _ hg.rest⟩

theorem lockstep_updateTrie {step : Trie mode → Except Violation (Trie mode)}
    {step' : Trie wide → Except Violation (Trie wide)}
    (h : ∀ t u, Trie.Beside f reach S t u →
      ∃ t₁ u₁, step t = .ok t₁ ∧ step' u = .ok u₁ ∧ Trie.Beside f reach S t₁ u₁) :
    Lockstep (Alongside f reach S R) (onTrie (.update step)) (onTrie (.update step')) := by
  refine lockstep_onTrie hR fun t u hb => ?_
  obtain ⟨t₁, u₁, ht, hu, hb₁⟩ := h t u hb
  rw [Action.run_update_of_ok ht, Action.run_update_of_ok hu]
  exact ⟨rfl, hb₁⟩

theorem lockstep_storeMetadata {e e' : Metadata} (he : mode.keep e = f (wide.keep e'))
    (hs : wordOf addr / segmentWords ∈ S) :
    Lockstep (Alongside f reach S R) (storeMetadata addr e) (storeMetadata addr e') := by
  refine (lockstep_count hR _).bind fun _ => lockstep_updateTrie hR fun t u h => h.store he ?_
  rwa [Trie.segmentOf_eq]

theorem lockstep_copyMetadata (src : Word)
    (hs : ∀ j < len.toNat / 8, (wordOf dest + j) / segmentWords ∈ S) :
    Lockstep (Alongside f reach S R) (copyMetadata dest src len) (copyMetadata dest src len) := by
  refine (lockstep_onTrie hR fun _ _ hb => hb.copyMetadata src hs).bind fun n => ?_
  by_cases hn : 0 < n
  · rw [if_pos hn, if_pos hn]
    exact (lockstep_count hR _).bind fun _ => .pure n
  · rw [if_neg hn, if_neg hn]
    exact .pure n

theorem lockstep_preallocate (hreach : segmentOf addr < reach)
    (hs : ∀ s < reach, s ≤ segmentOf addr + 1 → segmentOf addr ≤ s + 1 → s ∈ S) :
    Lockstep (Alongside f reach S R) (preallocate addr) (preallocate addr) := by
  refine lockstep_onTrie hR fun t u hb => ?_
  obtain ⟨ht, hu, hb₁⟩ := hb.preallocate hreach hs
  exact ⟨ht.trans hu.symm, hb₁⟩

end

end Guard

end PointerGuard
