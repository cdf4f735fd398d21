import PointerGuard.Action
import PointerGuard.Metrics
import PointerGuard.Policy
import PointerGuard.Report

namespace PointerGuard

/-- What a process does with violations. Under a fatal policy it ends with the exit code, after a
report that names the executable and shows the backtrace. -/
structure Reporter where
  policy : ViolationPolicy
  exitCode : Int
  executable : String
  backtrace : String
  /-- Counts of the violations so far after which the process went on. -/
  tally : Metrics := {}
  /-- The lines printed to standard error so far. -/
  printed : Array String := #[]
deriving DecidableEq, Repr

structure Exit where
  code : Int
deriving DecidableEq, Repr

namespace Reporter

/-- The reporter of a process whose settings are these texts. -/
def ofSettings (policy exitCode : Option String) (executable backtrace : String) : Reporter :=
  { policy := .ofSetting policy, exitCode := exitCodeOf exitCode, executable, backtrace }

def print (r : Reporter) (lines : List String) : Reporter :=
  { r with printed := r.printed ++ lines.toArray }

def suppress (r : Reporter) (v : Violation) : Reporter :=
  { r with tally := r.tally.recordSuppressed v.kind }

def raise (v : Violation) : Action Exit Reporter Unit := fun r =>
  match r.policy with
  | .abort => (.error ⟨r.exitCode⟩, r.print (reportLines v r.executable r.backtrace))
  | .proceed => (.ok (), (r.print [reportLine v]).suppress v)
  | .silent => (.ok (), r.suppress v)

/-- Suppressed violations, in all and by kind. -/
def counts (r : Reporter) : List Word :=
  [.suppressedViolations, .spatialViolations, .temporalViolations, .resourceViolations,
    .protocolViolations].map r.tally.get

/-- Raises violations in turn, and answers the counts after each one after which the process went
on. -/
def raiseAll (r : Reporter) : List Violation → Except Exit Unit × List (List Word) × Reporter
  | [] => (.ok (), [], r)
  | v :: vs =>
    match raise v r with
    | (.error e, r) => (.error e, [], r)
    | (.ok (), r) =>
      match r.raiseAll vs with
      | (end?, counts, last) => (end?, r.counts :: counts, last)

end Reporter

end PointerGuard
