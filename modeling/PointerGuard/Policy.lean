import PointerGuard.Text.Blank
import PointerGuard.Text.Signed

namespace PointerGuard

inductive ViolationPolicy where
  /-- Report, then end the process. -/
  | abort
  /-- Print one line, count, and go on. -/
  | proceed
  /-- Count and go on. -/
  | silent
deriving DecidableEq, Repr

namespace ViolationPolicy

/-- The policy that a word names; ASCII letters may have either case. -/
def ofWord (cs : List Char) : ViolationPolicy :=
  let text := String.ofList (cs.map Char.toLower)
  if text ∈ ["abort", "fatal", "exit"] then abort
  else if text ∈ ["continue", "warn", "report"] then proceed
  else if text ∈ ["silent", "count", "quiet"] then silent
  else abort

/-- The policy that a text names, white space around it aside. -/
def ofText (text : String) : ViolationPolicy := ofWord (trimBlank text.toList)

def ofSetting : Option String → ViolationPolicy
  | some text => ofText text
  | none => abort

def isFatal : ViolationPolicy → Bool
  | abort => true
  | _ => false

end ViolationPolicy

/-- The exit code when the setting is missing or is no 32-bit number. -/
def defaultExitCode : Int := 73

def exitCodeOf (setting : Option String) : Int :=
  (setting.bind fun text => readInt32? (trimBlank text.toList)).getD defaultExitCode

/-- What is left of an exit code when the process has ended: its low eight bits. -/
def exitStatus (code : Int) : Nat := (code % 256).toNat

end PointerGuard
