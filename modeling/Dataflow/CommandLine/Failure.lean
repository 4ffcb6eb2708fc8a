import Dataflow.Text.Digits
import Dataflow.Text.Lines

/-!
# Failures of a command

* `Failure` is a message with its causes, the nearest one first;
* `Failure.lines` is how it is reported.
-/

namespace Dataflow

/-- Why a command failed: a message, and its causes from the nearest to the farthest. -/
structure Failure where
  message : String
  causes : List String := []
  deriving DecidableEq, Repr

namespace Failure

/-- The lines of a cause with its number, which is right-aligned in five columns. -/
def numbered (index : Nat) (cause : String) : List String :=
  let digits := Text.decimal index
  let padding := List.replicate (5 - digits.length) ' '
  Text.indent (String.ofList (padding ++ digits) ++ ": ") "       " cause

/-- The lines of the causes; they are numbered if there are several. -/
def causeLines : List String → List String
  | [] => []
  | [cause] => "" :: "Caused by:" :: Text.indent "    " "    " cause
  | causes => "" :: "Caused by:" :: causes.zipIdx.flatMap fun (cause, index) => numbered index cause

/-- The report of a failure. -/
def lines (f : Failure) : List String :=
  Text.indent "Error: " "" f.message ++ causeLines f.causes

end Failure

end Dataflow
