import Dataflow.Id

/-!
# How a run ends
-/

namespace Dataflow

/-- The ending of a run. -/
inductive Outcome where
  | completed
  | cancelled
  | failed (error : String)
  deriving DecidableEq, Repr, Inhabited

/-- The report of a run. The duration is in milliseconds. -/
structure ExecutionResult where
  executionId : ExecutionId
  outcome : Outcome
  iterations : Nat
  duration : Nat
  deriving DecidableEq, Repr, Inhabited

end Dataflow
