namespace PointerGuard

/-- A 64-bit machine word: an address, a key, a size or a handle. -/
abbrev Word := UInt64

/-- Lower-case hexadecimal text after `0x`, without leading zeros. -/
def hex (w : Word) : String :=
  "0x" ++ String.ofList (Nat.toDigits 16 w.toNat)

/-- The word nearest to `n`. -/
def clampWord (n : Nat) : Word :=
  .ofNat (min n (1 <<< 64 - 1))

def saturatingAdd (a b : Word) : Word :=
  clampWord (a.toNat + b.toNat)

def saturatingMul (a b : Word) : Word :=
  clampWord (a.toNat * b.toNat)

def saturatingSub (a b : Word) : Word :=
  .ofNat (a.toNat - b.toNat)

/-- The sum of two words if it is a word. -/
def checkedAdd (a b : Word) : Option Word :=
  if a.toNat + b.toNat < 1 <<< 64 then some (a + b) else none

theorem toNat_ofNat_of_lt {n : Nat} (h : n < 1 <<< 64) : (UInt64.ofNat n).toNat = n := by
  simpa using Nat.mod_eq_of_lt h

theorem toNat_clampWord (n : Nat) : (clampWord n).toNat = min n (1 <<< 64 - 1) :=
  toNat_ofNat_of_lt (by omega)

theorem toNat_saturatingSub (a b : Word) : (saturatingSub a b).toNat = a.toNat - b.toNat := by
  have h := a.toNat_lt
  exact toNat_ofNat_of_lt (by omega)

theorem toNat_of_checkedAdd {a b c : Word} (h : checkedAdd a b = some c) :
    c.toNat = a.toNat + b.toNat := by
  unfold checkedAdd at h
  split at h
  next hb =>
    cases Option.some.inj h
    rw [UInt64.toNat_add, Nat.mod_eq_of_lt (by omega)]
  next => simp at h

end PointerGuard
