import Dataflow.Value

/-!
# Host settings of a run

A context is a set of named values that the host hands to every activation. One of them also concerns
the run itself: `iterationDelay`, the pause between iterations in milliseconds.
-/

namespace Dataflow

/-- The named settings of a run. -/
abbrev Context := Keyed Value

/-- The name of the setting for the pause between iterations. -/
def iterationDelayKey : String := "iterationDelay"

/-- An unsigned number of milliseconds as an integer of 64 bits. -/
def millisToInteger (ms : Nat) : Int :=
  Int.bmod ms UInt64.size

/-- The context with a pause between iterations. -/
def Context.withIterationDelay (context : Context) (ms : Nat) : Context :=
  Keyed.insert iterationDelayKey (.integer (millisToInteger ms)) context

/-- The pause between iterations, in whole milliseconds, if it is a number greater than zero. -/
def Context.iterationDelay? (context : Context) : Option Nat :=
  (((Keyed.find? iterationDelayKey context).bind Value.asNumber?).filter Binary64.isPositive).map Binary64.toWord

end Dataflow
