import Dataflow.Standard.Compute
import Dataflow.Standard.Flow
import Dataflow.Standard.Observe

/-!
# The standard node types
-/

namespace Dataflow.Standard

/-- The registry of the standard node types. -/
def registry : Registry :=
  .ofTypes [log, relay, distribute, merge, add, delay, jsonParse, jsonStringify, constant]

end Dataflow.Standard
