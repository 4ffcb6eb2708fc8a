/-!
# Settings of an executor
-/

namespace Dataflow

/-- Settings of an executor. A pause of zero milliseconds between iterations is none. -/
structure ExecutorConfig where
  iterationDelay : Nat
  /-- How many relays may trigger each other in a chain. -/
  maxRelayDepth : Nat
  eventBufferSize : Nat
  deriving DecidableEq, Repr

/-- The settings that hold unless others are given. -/
def ExecutorConfig.standard : ExecutorConfig :=
  { iterationDelay := 0, maxRelayDepth := 64, eventBufferSize := 1000 }

instance : Inhabited ExecutorConfig := ⟨.standard⟩

/-- The pause between iterations, if there is one. -/
def ExecutorConfig.delay? (config : ExecutorConfig) : Option Nat :=
  if 0 < config.iterationDelay then some config.iterationDelay else none

end Dataflow
