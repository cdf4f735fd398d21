import PointerGuard.Word

namespace PointerGuard

/-- A text up to its first null character, where it ends for a program. -/
def untilNull (text : String) : String := String.ofList (text.toList.takeWhile (· ≠ '\x00'))

/-- Bytes of a text, as a program counts them. -/
def byteLength (text : String) : Nat := (untilNull text).utf8ByteSize

structure Variable where
  text : String
  addr : Word
deriving DecidableEq, Repr

/-- The environment of a process: its variables in order, with the addresses of their texts. -/
structure Environment where
  vars : List Variable := []
  /-- Where the next string is put. -/
  nextAddr : Word := 0x6f0000000000
deriving DecidableEq, Repr

namespace Environment

/-- The address of the variable that points to the vector. -/
def holder : Word := 0x6d0000000000

def vector : Word := 0x6e0000000000

def nameOf (text : String) : String := String.ofList (text.toList.takeWhile (· ≠ '='))

def isName (name : String) : Bool := !name.isEmpty && !name.toList.contains '='

/-- The value of the first variable of this name. -/
def lookup (env : Environment) (name : String) : Option String :=
  (env.vars.find? fun v => v.text.toList.contains '=' && nameOf v.text == name).map fun v =>
    String.ofList ((v.text.toList.dropWhile (· ≠ '=')).drop 1)

/-- Puts a variable's text in place of the variable of the same name, or else at the end. -/
def put (env : Environment) (text : String) : Environment :=
  let fresh : Variable := ⟨text, env.nextAddr⟩
  let same := fun v : Variable => nameOf v.text == nameOf text
  { vars :=
      if env.vars.any same then env.vars.map fun v => if same v then fresh else v
      else env.vars ++ [fresh]
    nextAddr := env.nextAddr + .ofNat (byteLength text + 1) }

def remove (env : Environment) (name : String) : Environment :=
  { env with vars := env.vars.filter fun v => nameOf v.text != name }

/-- Sets a variable; one that is there already only if `overwrite` says so. -/
def setenv (env : Environment) (name value : String) (overwrite : Bool) : Int × Environment :=
  let name := untilNull name
  if !isName name then (-1, env)
  else if !overwrite && (env.lookup name).isSome then (0, env)
  else (0, env.put (name ++ "=" ++ untilNull value))

def unsetenv (env : Environment) (name : String) : Int × Environment :=
  let name := untilNull name
  if isName name then (0, env.remove name) else (-1, env)

/-- Puts a text `NAME=value`, or removes the variable of a text without `=`. -/
def putenv (env : Environment) (text : String) : Int × Environment :=
  let text := untilNull text
  if text.toList.contains '=' then (0, env.put text) else (0, (env.unsetenv text).2)

def ofVariables (texts : List String) : Environment := texts.foldl put {}

/-- The strings of the vector, as addresses and lengths. -/
def strings (env : Environment) : List (Word × Word) :=
  env.vars.map fun v => (v.addr, .ofNat (byteLength v.text))

end Environment

end PointerGuard
