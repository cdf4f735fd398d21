import PointerGuard.Word

namespace PointerGuard

/-- A structure of fixed capacity that can run out of room. -/
inductive Resource where
  | primaryTable
  | secondaryTable
  | shadowStack
  | lockArena
  | stackLockArena
  | freeMap
  | vaArgProxies
deriving DecidableEq, Repr

def Resource.name : Resource → String
  | primaryTable => "primary table"
  | secondaryTable => "secondary table"
  | shadowStack => "shadow stack"
  | lockArena => "lock arena"
  | stackLockArena => "stack lock arena"
  | freeMap => "free map"
  | vaArgProxies => "va_arg proxy table"

inductive ViolationKind where
  | spatial
  | temporal
  | resource
  | protocol
deriving DecidableEq, Repr

def ViolationKind.name : ViolationKind → String
  | spatial => "spatial"
  | temporal => "temporal"
  | resource => "resource"
  | protocol => "protocol"

inductive Violation where
  /-- An access of `width` bytes at `ptr` leaves `[base, bound)`. -/
  | outOfBounds (ptr base bound width : Word)
  /-- A call through metadata that was not made for exactly this function. -/
  | invalidCallTarget (ptr base bound : Word)
  | keyMismatch (key lock observed : Word)
  | unknownLock (key lock : Word)
  | exhausted (resource : Resource)
  /-- No live allocation with this key is recorded at `ptr`. -/
  | invalidFree (ptr key : Word)
  | shadowStackUnderflow
  | slotOutsideFrame (slot slots : Nat)
  /-- A stack key is released while `observed` is the newest. -/
  | stackLockOrder (key observed : Word)
  /-- The primary table does not reach the address, or an extent from it leaves the words. -/
  | untrackableAddress (addr : Word)
  | unknownProxy (proxy : Word)
  /-- The proxy has no pointer argument left, or its frame is gone. -/
  | proxyPastFrame (proxy : Word)
deriving DecidableEq, Repr

namespace Violation

def kind : Violation → ViolationKind
  | outOfBounds .. | invalidCallTarget .. => .spatial
  | keyMismatch .. | unknownLock .. => .temporal
  | exhausted _ => .resource
  | _ => .protocol

def message : Violation → String
  | outOfBounds ptr base bound width =>
    "out-of-bounds access: ptr=" ++ hex ptr ++ " width=" ++ toString width.toNat ++ " outside ["
      ++ hex base ++ ", " ++ hex bound ++ ")"
  | invalidCallTarget ptr base bound =>
    "invalid call target: ptr=" ++ hex ptr ++ " base=" ++ hex base ++ " bound=" ++ hex bound
  | keyMismatch key lock observed =>
    "use after free: key=" ++ toString key.toNat ++ " lock=" ++ hex lock ++ " holds "
      ++ toString observed.toNat
  | unknownLock key lock =>
    "lock " ++ hex lock ++ " (key=" ++ toString key.toNat ++ ") is not a lock cell"
  | exhausted resource => resource.name ++ " exhausted"
  | invalidFree ptr key =>
    "free of untracked pointer " ++ hex ptr ++ " (key=" ++ toString key.toNat
      ++ "): double free or invalid free"
  | shadowStackUnderflow => "shadow stack underflow: no frame to pop"
  | slotOutsideFrame slot slots =>
    "shadow stack slot " ++ toString slot ++ " outside the current frame of " ++ toString slots
      ++ " slots"
  | stackLockOrder key observed =>
    "stack lock released out of order: releasing key " ++ toString key.toNat ++ ", top holds "
      ++ toString observed.toNat
  | untrackableAddress addr => "address " ++ hex addr ++ " is outside the trackable range"
  | unknownProxy proxy => hex proxy ++ " is not a live va_arg proxy"
  | proxyPastFrame proxy =>
    "va_arg proxy " ++ hex proxy ++ " read past the pointer arguments of its frame"

/-- The violation with an untrackable address replaced by the address that was asked for. -/
def blame (addr : Word) : Violation → Violation
  | untrackableAddress _ => untrackableAddress addr
  | v => v

end Violation

end PointerGuard
