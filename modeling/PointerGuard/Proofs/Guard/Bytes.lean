import PointerGuard.Proofs.Guard.Dereference

namespace PointerGuard

variable {lenient : Leniency} {ptr width base bound : Word}

/-- The `i`-th byte from an address on. -/
def byteAt (addr : Word) (i : Nat) : Word := addr + .ofNat i

theorem toNat_byteAt {addr : Word} {i : Nat} (h : addr.toNat + i < 2 ^ 64) :
    (byteAt addr i).toNat = addr.toNat + i := by
  have hi : (UInt64.ofNat i).toNat = i := toNat_ofNat_of_lt (by omega)
  rw [byteAt, UInt64.toNat_add, hi, Nat.mod_eq_of_lt h]

theorem inBounds_byteAt_iff {i : Nat} (h : ptr.toNat + i < 2 ^ 64) :
    InBounds (byteAt ptr i) 1 base bound ↔
      base.toNat ≤ ptr.toNat + i ∧ ptr.toNat + i < bound.toNat := by
  rw [InBounds, toNat_byteAt h]
  rfl

theorem inBounds_iff_bytes (hw : 0 < width.toNat) : InBounds ptr width base bound ↔
    ∀ i < width.toNat, ptr.toNat + i < 2 ^ 64 → InBounds (byteAt ptr i) 1 base bound := by
  have hbound := bound.toNat_lt
  have hptr := ptr.toNat_lt
  constructor
  · rintro ⟨hlo, hhi⟩ i hi hfit
    rw [inBounds_byteAt_iff hfit]
    omega
  · intro h
    have hfirst := (inBounds_byteAt_iff hptr).mp (h 0 hw hptr)
    -- the last byte of the access, or else the last address
    obtain ⟨i, hi, hfit, hlast⟩ : ∃ i < width.toNat, ptr.toNat + i < 2 ^ 64 ∧
        (i + 1 = width.toNat ∨ ptr.toNat + i + 1 = 2 ^ 64) := by
      by_cases hend : ptr.toNat + width.toNat ≤ 2 ^ 64
      · exact ⟨width.toNat - 1, by omega, by omega, by omega⟩
      · exact ⟨2 ^ 64 - 1 - ptr.toNat, by omega, by omega, by omega⟩
    have hin := (inBounds_byteAt_iff hfit).mp (h i hi hfit)
    exact ⟨hfirst.1, by omega⟩

theorem spatialCheck_passes_iff_bytes (hw : 0 < width.toNat) :
    spatialCheck lenient ptr width base bound = .ok () ↔ ∀ i < width.toNat,
      ptr.toNat + i < 2 ^ 64 → spatialCheck lenient (byteAt ptr i) 1 base bound = .ok () := by
  have hsome : ¬lenient.Exempts width := by
    rintro ⟨_, rfl⟩
    exact Nat.lt_irrefl 0 hw
  have hone : ¬lenient.Exempts 1 := fun h => absurd h.2 (by decide)
  by_cases hno : lenient.Ignores base
  · simp [spatialCheck_passes_iff, hno]
  · simp only [spatialCheck_passes_iff, hno, hsome, hone, or_false]
    exact inBounds_iff_bytes hw

namespace Guard

variable {mode : Mode} {g g' : Guard mode} {e : Metadata}

theorem checkDereference_congr (hc : g'.config = g.config) (hl : g'.lifetimes = g.lifetimes) :
    ((checkDereference ptr width e).run g').1 = .ok () ↔
      ((checkDereference ptr width e).run g).1 = .ok () := by
  rw [checkDereference_passes_iff, checkDereference_passes_iff, hc, checkTemporal_congr hc hl]

theorem checkDereference_passes_iff_bytes (hw : 0 < width.toNat) :
    ((checkDereference ptr width e).run g).1 = .ok () ↔ ∀ i < width.toNat,
      ptr.toNat + i < 2 ^ 64 → ((checkDereference (byteAt ptr i) 1 e).run g).1 = .ok () := by
  simp only [checkDereference_passes_iff, spatialCheck_passes_iff_bytes hw]
  constructor
  · rintro ⟨hs, ht⟩ i hi hfit
    exact ⟨fun hb => hs hb i hi hfit, ht⟩
  · intro h
    have hfirst := h 0 hw ptr.toNat_lt
    exact ⟨fun hb i hi hfit => (h i hi hfit).1 hb, hfirst.2⟩

theorem checkCopy_passes_iff {dest src len : Word} {e e' : Metadata} :
    ((checkCopy dest src len e e').run g).1 = .ok () ↔
      ((checkDereference dest len e).run g).1 = .ok () ∧
        ((checkDereference src len e').run g).1 = .ok () := by
  have hkept := causes_checkDereference (fun _ => False) dest len e g
  have hlife : ((checkDereference dest len e).run g).2.lifetimes = g.lifetimes :=
    hkept.lifetimes.trans (Option.map_id' ..)
  have hsecond : ((checkDereference src len e').run ((checkDereference dest len e).run g).2).1
      = .ok () ↔ ((checkDereference src len e').run g).1 = .ok () :=
    checkDereference_congr hkept.config hlife
  rw [checkCopy, Action.run_bind_eq_ok_iff, ← hsecond]
  exact ⟨fun ⟨_, hd, hs⟩ => ⟨hd, hs⟩, fun ⟨hd, hs⟩ => ⟨(), hd, hs⟩⟩

/-- An access of at least one byte passes the spatial check exactly if all its bytes with an address
do, and a copy passes exactly if the bytes of both sides pass all checks one by one. -/
theorem wide_access_passes_iff_bytes {width : Word} (hw : 0 < width) :
    (∀ lenient ptr base bound, spatialCheck lenient ptr width base bound = .ok () ↔
      ∀ i < width.toNat, ptr.toNat + i < 2 ^ 64 →
        spatialCheck lenient (byteAt ptr i) 1 base bound = .ok ()) ∧
    ∀ (mode : Mode) (g : Guard mode) dest src e e',
      ((checkCopy dest src width e e').run g).1 = .ok () ↔
        (∀ i < width.toNat, dest.toNat + i < 2 ^ 64 →
          ((checkDereference (byteAt dest i) 1 e).run g).1 = .ok ()) ∧
        ∀ i < width.toNat, src.toNat + i < 2 ^ 64 →
          ((checkDereference (byteAt src i) 1 e').run g).1 = .ok () := by
  refine ⟨fun lenient ptr base bound => spatialCheck_passes_iff_bytes hw,
    fun mode g dest src e e' => ?_⟩
  rw [checkCopy_passes_iff, checkDereference_passes_iff_bytes hw,
    checkDereference_passes_iff_bytes hw]

/-- The access ends with the last address, which lies within no bounds; the copy of an object onto
itself passes, so that each byte of the object does. -/
theorem wide_access_passes_iff_bytes_at_end :
    spatialCheck {} 0xfffffffffffffff0 16 0 0xffffffffffffffff ≠ .ok () ∧
    ∃ g : Guard .combined, Guard.create .standard Config.compact = .ok g ∧
      ∀ i < 16, ((checkDereference (byteAt 0x1000 i) 1 ⟨0x1000, 0x1010, 2, heapLocksAddr⟩).run
        (g.after [.allocateObject 0x1000 16])).1 = .ok () := by
  have hw : (0 : Word) < 16 := by decide
  obtain ⟨hspatial, hcopy⟩ := wide_access_passes_iff_bytes hw
  constructor
  · intro h
    have hlast := (hspatial {} _ _ _).mp h 15 (by decide) (by decide)
    exact absurd hlast (by decide)
  · obtain ⟨g, hc, hpass⟩ : ∃ g : Guard .combined, Guard.create .standard Config.compact = .ok g ∧
        ((checkCopy 0x1000 0x1000 16 ⟨0x1000, 0x1010, 2, heapLocksAddr⟩
          ⟨0x1000, 0x1010, 2, heapLocksAddr⟩).run
            (g.after [.allocateObject 0x1000 16])).1 = .ok () :=
      ⟨_, rfl, rfl⟩
    obtain ⟨hdest, _⟩ := (hcopy .combined _ _ _ _ _).mp hpass
    refine ⟨g, hc, fun i hi => hdest i hi ?_⟩
    show 0x1000 + i < 2 ^ 64
    omega

end Guard

end PointerGuard
