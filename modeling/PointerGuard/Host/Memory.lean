import PointerGuard.Word

namespace PointerGuard

/-- The tables that live in mappings of their own. -/
inductive Region where
  | globalLock
  | heapLocks
  | stackLocks
  | lockLinks
  | freeMap
  | shadowStack
  | primary
  | secondary
deriving DecidableEq, Repr

/-- The memory that a host gives to a process. Regions are mapped apart from each other, and an
entry for every word of a segment is always granted. -/
structure Host where
  /-- Where a region of so many bytes is mapped; `none` if the host refuses it. -/
  map : Region → Nat → Option Word
  grants_secondary : ∀ n ≤ 1 <<< 27, (map .secondary n).isSome
  base_ne_zero : ∀ {region n base}, map region n = some base → base ≠ 0
  fits : ∀ {region n base}, map region n = some base → base.toNat + n ≤ 1 <<< 64
  apart : ∀ {region region' n n' base base'}, region ≠ region' → map region n = some base →
    map region' n' = some base' →
    base.toNat + n ≤ base'.toNat ∨ base'.toNat + n' ≤ base.toNat

/-- The place of the one cell that holds the global key, on the standard host. -/
def globalLockAddr : Word := 0x600000000000

/-- The place of the heap arena on the standard host. -/
def heapLocksAddr : Word := 0x610000000000

/-- The place of the arena of stack locks on the standard host. -/
def stackLocksAddr : Word := 0x620000000000

namespace Region

def standardPlace : Region → Word
  | globalLock => globalLockAddr
  | heapLocks => heapLocksAddr
  | stackLocks => stackLocksAddr
  | lockLinks => 0x630000000000
  | freeMap => 0x640000000000
  | shadowStack => 0x650000000000
  | primary => 0x660000000000
  | secondary => 0x670000000000

/-- Places of the standard host are spaced by what it grants at most. -/
theorem standardPlace_spaced {region region' : Region} (h : region ≠ region') :
    region.standardPlace.toNat + 1 <<< 40 ≤ region'.standardPlace.toNat ∨
      region'.standardPlace.toNat + 1 <<< 40 ≤ region.standardPlace.toNat := by
  revert h
  cases region <;> cases region' <;> decide

end Region

namespace Host

/-- A host with a fixed place for every region, which grants up to 2^40 bytes. -/
def standard : Host where
  map region n := if n ≤ 1 <<< 40 then some region.standardPlace else none
  grants_secondary n hn := by
    rw [if_pos (Nat.le_trans hn (by decide))]
    rfl
  base_ne_zero {region n base} h := by
    split at h
    next =>
      cases Option.some.inj h
      cases region <;> decide
    next => cases h
  fits {region n base} h := by
    split at h
    next hn =>
      cases Option.some.inj h
      have hplace : region.standardPlace.toNat + 1 <<< 40 ≤ 1 <<< 64 := by
        cases region <;> decide
      omega
    next => cases h
  apart {region region' n n' base base'} hne h h' := by
    split at h
    next hn =>
      split at h'
      next hn' =>
        cases Option.some.inj h
        cases Option.some.inj h'
        have hspaced := Region.standardPlace_spaced hne
        omega
      next => cases h'
    next => cases h

end Host

end PointerGuard
