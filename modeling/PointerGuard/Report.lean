import PointerGuard.Text.Lines
import PointerGuard.Violation

namespace PointerGuard

def reportBanner : String :=
  "=================== ptrmeta: memory safety violation ==================="

/-- The lines of the report of a violation in a program with a given backtrace. -/
def reportLines (v : Violation) (executable backtrace : String) : List String :=
  [reportBanner, "kind:       " ++ v.kind.name, "violation:  " ++ v.message,
    "executable: " ++ executable, "backtrace:"]
    ++ (textLines backtrace).map ("  " ++ ·)
    ++ [String.ofList (List.replicate reportBanner.length '=')]

def reportText (v : Violation) (executable backtrace : String) : String :=
  String.join ((reportLines v executable backtrace).map (· ++ "\n"))

def reportLine (v : Violation) : String :=
  "FATAL: (" ++ v.kind.name ++ ") " ++ v.message

end PointerGuard
