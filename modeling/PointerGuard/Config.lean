import PointerGuard.Word

namespace PointerGuard

/-- Bytes covered by one primary slot. -/
def segmentBytes : Nat := 1 <<< 25

/-- Entries of one secondary table, one for each 8-byte word of a segment. -/
def segmentWords : Nat := 1 <<< 22

/-- The free list writes this number where it ends, so a lock arena has fewer cells. -/
def linkEnd : Nat := 1 <<< 32 - 1

/-- When secondary tables are installed. -/
inductive InstallPolicy where
  /-- On the first write into their segment. -/
  | lazy
  /-- Around every heap allocation as well. -/
  | eager
deriving DecidableEq, Repr

def InstallPolicy.name : InstallPolicy → String
  | lazy => "Lazy"
  | eager => "Eager"

/-- Where stack objects get their lock. -/
inductive StackLockPolicy where
  /-- A cell of its own for every call, released in reverse order. -/
  | perCall
  /-- The global lock, which is never released. -/
  | shared
deriving DecidableEq, Repr

def StackLockPolicy.name : StackLockPolicy → String
  | perCall => "PerCall"
  | shared => "Shared"

structure Leniency where
  /-- Metadata with base zero (bounds) or lock zero (lifetime) passes. -/
  ignoreMissing : Bool := false
  /-- An access of no bytes is in bounds. -/
  allowZeroWidth : Bool := false
deriving DecidableEq, Repr

inductive Capacity where
  | primaryEntries
  | shadowStackWords
  | lockEntries
  | stackLockEntries
  | freeMapEntries
  | vaArgProxies
deriving DecidableEq, Repr

namespace Capacity

def name : Capacity → String
  | primaryEntries => "primary_entries"
  | shadowStackWords => "shadow_stack_words"
  | lockEntries => "lock_entries"
  | stackLockEntries => "stack_lock_entries"
  | freeMapEntries => "free_map_entries"
  | vaArgProxies => "va_arg_proxies"

/-- The capacities in the order in which they are checked. -/
def all : List Capacity :=
  [primaryEntries, shadowStackWords, lockEntries, stackLockEntries, freeMapEntries, vaArgProxies]

theorem mem_all (c : Capacity) : c ∈ all := by
  cases c <;> decide

end Capacity

structure Config where
  /-- Slots of the primary table; the standard number covers 2^48 bytes. -/
  primaryEntries : Nat := 1 <<< 23
  shadowStackWords : Nat := 128 * 32
  lockEntries : Nat := 1 <<< 26
  /-- Cells for stack locks, under the per-call policy. -/
  stackLockEntries : Nat := 1 <<< 16
  freeMapEntries : Nat := 1 <<< 25
  vaArgProxies : Nat := 1 <<< 10
  installPolicy : InstallPolicy := .lazy
  stackLockPolicy : StackLockPolicy := .perCall
  /-- Deallocations are checked against the free map. -/
  freeMap : Bool := true
  leniency : Leniency := {}
deriving DecidableEq, Repr

inductive ConfigError where
  | zeroCapacity (field : Capacity)
  | tooSmall (field : Capacity) (value min : Nat)
  | tooLarge (field : Capacity) (value max : Nat)
deriving DecidableEq, Repr

def ConfigError.message : ConfigError → String
  | zeroCapacity field => field.name ++ " must be non-zero"
  | tooSmall field value min =>
    field.name ++ " = " ++ toString value ++ " is below the minimum of " ++ toString min
  | tooLarge field value max =>
    field.name ++ " = " ++ toString value ++ " exceeds the limit of " ++ toString max

namespace Config

def standard : Config := {}

def compact : Config :=
  { shadowStackWords := 1024, lockEntries := 1 <<< 12, stackLockEntries := 256,
    freeMapEntries := 1 <<< 12, vaArgProxies := 16 }

def capacity (c : Config) : Capacity → Nat
  | .primaryEntries => c.primaryEntries
  | .shadowStackWords => c.shadowStackWords
  | .lockEntries => c.lockEntries
  | .stackLockEntries => c.stackLockEntries
  | .freeMapEntries => c.freeMapEntries
  | .vaArgProxies => c.vaArgProxies

/-- The objection to a configuration that is reported first. -/
def objection? (c : Config) : Option ConfigError :=
  match Capacity.all.find? fun field => c.capacity field == 0 with
  | some field => some (.zeroCapacity field)
  | none =>
    match [.lockEntries, .stackLockEntries].find? fun field => linkEnd ≤ c.capacity field with
    | some field => some (.tooLarge field (c.capacity field) (linkEnd - 1))
    | none =>
      if c.shadowStackWords < 2 then some (.tooSmall .shadowStackWords c.shadowStackWords 2)
      else none

def validate (c : Config) : Except ConfigError Unit :=
  match c.objection? with
  | some error => .error error
  | none => .ok ()

theorem validate_eq_ok_iff {c : Config} :
    c.validate = .ok () ↔
      (∀ field, c.capacity field ≠ 0) ∧ c.lockEntries < linkEnd ∧ c.stackLockEntries < linkEnd ∧
        2 ≤ c.shadowStackWords := by
  unfold validate objection?
  cases hz : Capacity.all.find? fun field => c.capacity field == 0 with
  | some field =>
    have h := List.find?_some hz
    simp only [reduceCtorEq, false_iff, not_and]
    exact fun hall => absurd (by simpa using h) (hall field)
  | none =>
    have hall : ∀ field, c.capacity field ≠ 0 := fun field => by
      simpa using List.find?_eq_none.mp hz field field.mem_all
    simp only [hall, ne_eq, not_false_eq_true, implies_true, true_and, List.find?_cons,
      List.find?_nil]
    by_cases hl : linkEnd ≤ c.lockEntries
    · simp [capacity, hl, Nat.not_lt.mpr hl]
    by_cases hs : linkEnd ≤ c.stackLockEntries
    · simp [capacity, hl, hs, Nat.not_lt.mpr hs]
    by_cases hw : c.shadowStackWords < 2
    · simp [capacity, hl, hs, hw, Nat.not_le.mpr hw]
    · simp [capacity, hl, hs, hw, Nat.not_le.mp hl, Nat.not_le.mp hs, Nat.not_lt.mp hw]

end Config

end PointerGuard
