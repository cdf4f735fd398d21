import PointerGuard.Session.Reporter
import PointerGuard.Guard.Checks
import PointerGuard.Guard.Frames
import PointerGuard.Guard.Objects

namespace PointerGuard

/-- A guard under a violation policy. -/
structure Session where
  guard : Guard .combined
  reporter : Reporter

/-- A step of a session, which may end the process. -/
abbrev InSession : Type → Type := Action Exit Session

namespace Session

def raise (v : Violation) : InSession Unit :=
  (Reporter.raise v).on reporter fun s reporter => { s with reporter }

/-- Runs a step of the guard and reports its violation, if there is one. -/
def withGuard {α : Type} [Inhabited α] (act : Guarded .combined α) : InSession α := fun s =>
  match act s.guard with
  | (.ok a, guard) => (.ok a, { s with guard })
  | (.error v, guard) => (raise v >>= fun _ => pure default) { s with guard }

end Session

end PointerGuard
