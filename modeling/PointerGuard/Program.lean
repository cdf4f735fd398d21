import PointerGuard.Session.Call
import PointerGuard.Host.Blocks
import PointerGuard.Host.Environment

namespace PointerGuard

/-- A session with the memory and the environment of the program that it guards. -/
structure Program where
  session : Session
  blocks : Blocks := {}
  environment : Environment := {}
  /-- The metadata of the pointers in the process's own memory. -/
  processTrie : Trie .combined := session.guard.trie
  /-- The policy was read, because a violation needed it. -/
  policyRead : Bool := false

inductive Request where
  | call (c : Call)
  | malloc (size : Word)
  | calloc (count size : Word)
  | realloc (ptr size : Word)
  /-- Registers `argc` of the strings of a fresh vector; without strings, of no vector. -/
  | updateArguments (argc : Int) (strings : Option (List String))
  | updateEnvironment
  | setenv (name value : String) (overwrite : Bool)
  | unsetenv (name : String)
  | putenv (text : String)
deriving DecidableEq, Repr

def Request.registersEnvironment : Request → Bool
  | .updateEnvironment | .setenv .. | .unsetenv _ | .putenv _ => true
  | _ => false

namespace Program

def policySetting : String := "PTRMETA_ON_VIOLATION"

def exitCodeSetting : String := "PTRMETA_EXIT_CODE"

def start (guard : Guard .combined) (policy exitCode : Option String)
    (executable backtrace : String) : Program :=
  let setting := fun (name : String) (value : Option String) =>
    (value.map fun v => name ++ "=" ++ v).toList
  { session := { guard, reporter := .ofSettings policy exitCode executable backtrace }
    environment := .ofVariables (setting policySetting policy ++ setting exitCodeSetting exitCode) }

/-- The call that a request comes down to once the process has supplied addresses, and the status
of a change of the environment. -/
def resolve (p : Program) : Request → Call × Option Int × Program
  | .call c => (c, none, p)
  | .malloc size =>
    let (result, blocks) := p.blocks.malloc size.toNat
    (.malloc size result, none, { p with blocks })
  | .calloc count size =>
    let (result, blocks) := p.blocks.malloc (count.toNat * size.toNat)
    (.calloc count size result, none, { p with blocks })
  | .realloc ptr size =>
    let (result, blocks) := p.blocks.realloc ptr size
    (.realloc ptr size result, none, { p with blocks })
  | .updateArguments _ none => (.registerArguments 0 [], none, p)
  | .updateArguments argc (some strings) =>
    let (vector, blocks) := p.blocks.place (8 * (strings.length + 1))
    let (addrs, blocks) := blocks.placeAll (strings.map fun s => s.utf8ByteSize + 1)
    let spans := List.zip addrs (strings.map fun s => .ofNat (byteLength s))
    (.registerArguments vector (spans.take argc.toNat), none, { p with blocks })
  | .updateEnvironment => update p.environment none
  | .setenv name value overwrite =>
    let (status, env) := p.environment.setenv name value overwrite
    update env (some status)
  | .unsetenv name =>
    let (status, env) := p.environment.unsetenv name
    update env (some status)
  | .putenv text =>
    let (status, env) := p.environment.putenv text
    update env (some status)
where
  update (env : Environment) (status : Option Int) : Call × Option Int × Program :=
    (.registerEnvironment Environment.holder Environment.vector env.strings, status,
      { p with environment := env })

/-- The program with its reporter's settings as the environment has them now. -/
def refresh (p : Program) : Program :=
  let r := p.session.reporter
  let policy := if p.policyRead then r.policy
    else .ofSetting (p.environment.lookup policySetting)
  let exitCode := exitCodeOf (p.environment.lookup exitCodeSetting)
  { p with session := { p.session with reporter := { r with policy, exitCode } } }

/-- The program with its guard on the trie of the process's own memory; a second exchange leads
back. -/
def exchange (p : Program) : Program :=
  { p with
    session := { p.session with guard := { p.session.guard with trie := p.processTrie } }
    processTrie := p.session.guard.trie }

@[simp] theorem exchange_exchange (p : Program) : p.exchange.exchange = p := rfl

/-- Carries out a call and notes whether it needed the policy. -/
def perform (call : Call) : Action Exit Program Reply := fun p =>
  let before := p.session.reporter.tally.suppressedViolations
  match Session.answer call p.session with
  | (result, session) =>
    let policyRead := p.policyRead || before != session.reporter.tally.suppressedViolations
    (result, { p with session, policyRead })

def respond (r : Request) : Action Exit Program (Reply × Option Int) := fun p =>
  let (call, status, p) := p.resolve r
  let (result, p) :=
    if r.registersEnvironment then
      let (result, p) := perform call p.refresh.exchange
      (result, p.exchange)
    else perform call p.refresh
  (result.map fun reply => (reply, status), p)

/-- What is recorded for every string of the environment, with bounds relative to the string. -/
def stringRecords (p : Program) : List (String × Metadata) :=
  p.environment.vars.mapIdx fun i v =>
    let e := p.processTrie.load (Environment.vector + .ofNat (8 * i))
    (v.text, { e with base := e.base - v.addr, bound := e.bound - v.addr })

/-- What is recorded for the vector of the environment, with bounds relative to the vector. -/
def vectorRecord (p : Program) : Metadata :=
  let e := p.processTrie.load Environment.holder
  { e with base := e.base - Environment.vector, bound := e.bound - Environment.vector }

end Program

end PointerGuard
