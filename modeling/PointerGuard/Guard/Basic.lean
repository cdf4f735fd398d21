import PointerGuard.Action
import PointerGuard.Bounds
import PointerGuard.Lifetimes.Basic
import PointerGuard.Metrics
import PointerGuard.Proxies
import PointerGuard.Trie.Copy

namespace PointerGuard

/-- The state of the checks on a program's pointers. A mode without keys has no lifetimes. -/
structure Guard (mode : Mode) where
  config : Config
  trie : Trie mode
  shadow : ShadowStack mode
  proxies : Proxies
  lifetimes : Option Lifetimes
  metrics : Metrics := {}

inductive InitError where
  | config (error : ConfigError)
  | reservation (violation : Violation)
deriving DecidableEq, Repr

def InitError.message : InitError → String
  | config error => "invalid configuration: " ++ error.message
  | reservation violation => "reservation failed: " ++ violation.message

abbrev Guarded (mode : Mode) : Type → Type := Action Violation (Guard mode)

namespace Guard

variable {mode : Mode}

/-- The tables that a configuration asks for. -/
def reserve (host : Host) (config : Config) : Except Violation (Guard mode) := do
  let trie ← Trie.create host config.primaryEntries config.installPolicy
  let shadow ← ShadowStack.create host config.shadowStackWords
  let lifetimes ←
    if mode.tracksLifetime then
      some <$> Lifetimes.create host config.lockEntries config.stackLockPolicy
        config.stackLockEntries (if config.freeMap then some config.freeMapEntries else none)
    else pure none
  return { config, trie, shadow, proxies := { capacity := config.vaArgProxies }, lifetimes }

def create (host : Host) (config : Config) : Except InitError (Guard mode) :=
  match config.validate with
  | .error e => .error (.config e)
  | .ok () =>
    match reserve host config with
    | .error v => .error (.reservation v)
    | .ok g => .ok g

def count (c : Counter) : Guarded mode Unit :=
  .modify fun g => { g with metrics := g.metrics.bump c }

def onTrie {α : Type} (act : Action Violation (Trie mode) α) : Guarded mode α :=
  act.on trie fun g trie => { g with trie }

def onShadow {α : Type} (act : Action Violation (ShadowStack mode) α) : Guarded mode α :=
  act.on shadow fun g shadow => { g with shadow }

def onProxies {α : Type} (act : Action Violation Proxies α) : Guarded mode α :=
  act.on proxies fun g proxies => { g with proxies }

/-- A step of the lifetimes, or the given value where lifetimes are not tracked. -/
def onLifetimes {α : Type} (absent : α) (act : Action Violation Lifetimes α) : Guarded mode α :=
  fun g =>
    match g.lifetimes with
    | none => (.ok absent, g)
    | some l =>
      match act l with
      | (r, l) => (r, { g with lifetimes := some l })

/-- The lock of objects that are never released; zero where lifetimes are not tracked. -/
def globalLock (g : Guard mode) : Word := g.lifetimes.elim 0 (·.global.addr)

/-- Metadata that passes the check of every access up to the largest signed address, for ever. -/
def wideMetadata (g : Guard mode) : Metadata := mode.keep (.wide g.globalLock)

def snapshot (g : Guard mode) : Snapshot := ⟨g.metrics, g.trie.tables.size⟩

def tracked (g : Guard mode) : Option Nat := g.lifetimes.bind Lifetimes.tracked

def describe (g : Guard mode) : String :=
  recordText "Runtime"
    [("mode", quotedText mode.name), ("trie", g.trie.describe), ("shadow", g.shadow.describe),
     ("va_args", toString g.proxies.live),
     ("temporal", optionText (g.lifetimes.map Lifetimes.describe))] false

end Guard

end PointerGuard
