import Dataflow.Executor.Detached
import Dataflow.Proofs.Standard.Nodes

/-!
# Elements that wait

A behavior that takes arrays apart keeps the elements that it has not emitted yet. Whatever it is activated with, and however
often, they are a queue: what comes is put at the end, what is emitted is taken from the front, and nothing is lost.

* `Behavior.attemptAll` activates a behavior outside a run, one time after the other;
* `Script.Prompt.runDetached`: a script that ends at once comes to the same outside a run as in one;
* `Standard.attempt_distribute` and `Standard.attempt_distribute_refused`: one activation;
* `Standard.emitted_append_waiting`: what was emitted and what waits are what waited before and what was accepted;
* `Standard.lossless_queue`: all this after any activations.
-/

namespace Dataflow

open Keyed

/-- An activation outside a run. It may be cancelled before it begins. -/
structure Attempt where
  activation : Activation
  cancelled : Bool

namespace Behavior

/-- Activate a behavior outside a run with what it remembers. -/
def attempt (b : Behavior) (a : Attempt) (d : Detached) : DetachedEnd × Detached :=
  (b.activate a.activation d.memory).runDetached a.cancelled d

/-- Activate a behavior one time after the other: how each activation ended, and the state after the last one. -/
def attemptAll (b : Behavior) : List Attempt → Detached → List (Attempt × DetachedEnd) × Detached
  | [], d => ([], d)
  | a :: rest, d =>
    let (ended, d) := b.attempt a d
    let (history, d) := b.attemptAll rest d
    ((a, ended) :: history, d)

end Behavior

/-- A script that ends at once comes to its result outside a run, too. -/
theorem Script.Prompt.runDetached {m m' : Memory} {script : Script} {result : Except NodeError Output}
    (h : script.Prompt m result m') (cancelled : Bool) {d : Detached} (hd : d.memory = m) :
    ∃ d', script.runDetached cancelled d = (.result result, d') ∧ d'.memory = m' := by
  induction h generalizing d with
  | finish => exact ⟨d, rfl, hd⟩
  | emit _ ih => exact ih (d := { d with messages := d.messages ++ [_] }) hd
  | log _ ih => exact ih (d := { d with log := d.log ++ [_] }) hd
  | remember _ ih => exact ih (d := { d with memory := _ }) rfl

namespace Standard

/-- The input that arrays come to is empty, or there is an array. -/
def TakesArray (inputs : NamedValues) : Prop :=
  ∀ v, Keyed.find? "items" inputs = some v → v = .null ∨ v.dataType = .array

/-- The elements of the array that has come. -/
def arrived (inputs : NamedValues) : List Value :=
  ((NamedValues.lookup "items" inputs).bind Value.asArray?).getD []

/-- The elements that an activation has accepted. If it failed, these are none. -/
def accepted : Attempt × DetachedEnd → List Value
  | (a, .result (.ok _)) => arrived a.activation.inputs
  | _ => []

/-- The element that an activation has emitted, if it has emitted one. -/
def emitted : Attempt × DetachedEnd → List Value
  | (_, .result (.ok o)) => (Keyed.find? "item" o.outputs).toList
  | _ => []

/-! ### One activation -/

/-- What is looked up is an array, unless nothing has come. -/
theorem lookup_of_takesArray {inputs : NamedValues} (h : TakesArray inputs) :
    ∃ items : Option (List Value), NamedValues.lookup "items" inputs = items.map .array ∧ arrived inputs = items.getD [] := by
  rw [arrived, NamedValues.lookup]
  cases hv : Keyed.find? "items" inputs with
  | none => exact ⟨none, rfl, rfl⟩
  | some v =>
    rcases h v hv with rfl | harray
    · exact ⟨none, rfl, rfl⟩
    · cases v with
      | array items => exact ⟨some items, rfl, rfl⟩
      | _ => cases harray

/-- What there is to emit from: the elements that wait, and behind them those that have come. -/
theorem activate_distribute {a : Activation} (ha : TakesArray a.inputs) (waiting : Memory) :
    distributeBehavior.activate a waiting = emitNext (waiting ++ arrived a.inputs) := by
  obtain ⟨items, hlookup, harrived⟩ := lookup_of_takesArray ha
  simp only [distributeBehavior, hlookup, harrived]
  cases items with
  | none => simp
  | some items => rfl

theorem attempt_distribute {a : Attempt} (ha : TakesArray a.activation.inputs) (d : Detached) :
    ∃ d', distributeBehavior.attempt a d =
        (.result (.ok (emission (d.memory ++ arrived a.activation.inputs)).2), d') ∧
      d'.memory = (emission (d.memory ++ arrived a.activation.inputs)).1 := by
  rw [Behavior.attempt, activate_distribute ha]
  exact (emission_prompt _ d.memory).runDetached a.cancelled rfl

/-- Anything else than an array is refused, and what waits stays as it is. -/
theorem attempt_distribute_refused {a : Attempt} {v : Value} (hv : Keyed.find? "items" a.activation.inputs = some v)
    (hnull : v ≠ .null) (harray : v.dataType ≠ .array) (d : Detached) :
    distributeBehavior.attempt a d = (.result (.error (.invalidInputType "items" "array" v.dataType.name)), d) := by
  have hlookup : NamedValues.lookup "items" a.activation.inputs = some v := by
    rw [NamedValues.lookup, hv]
    cases v <;> first | rfl | exact absurd rfl hnull
  simp only [Behavior.attempt, distributeBehavior, hlookup]
  cases v <;> first | rfl | exact absurd rfl harray

/-- An activation keeps the order of the elements: the one that it emits is the first of those that waited and came. -/
theorem emitted_append_memory (a : Attempt) (d : Detached) :
    emitted (a, (distributeBehavior.attempt a d).1) ++ (distributeBehavior.attempt a d).2.memory =
      d.memory ++ accepted (a, (distributeBehavior.attempt a d).1) := by
  by_cases ha : TakesArray a.activation.inputs
  · obtain ⟨d', hattempt, hmemory⟩ := attempt_distribute ha d
    rw [hattempt, hmemory, accepted, emitted]
    cases d.memory ++ arrived a.activation.inputs <;> rfl
  · rw [TakesArray] at ha
    push Not at ha
    obtain ⟨v, hv, hnull, harray⟩ := ha
    rw [attempt_distribute_refused hv hnull harray]
    exact (List.append_nil d.memory).symm

/-- What an activation comes to, given what waits before it. -/
structure Serves (a : Attempt) (waiting : Memory) (ended : DetachedEnd) (waiting' : Memory) : Prop where
  /-- What is neither empty nor an array is refused. -/
  refused : ∀ v, Keyed.find? "items" a.activation.inputs = some v → v ≠ .null → v.dataType ≠ .array →
    ended = .result (.error (.invalidInputType "items" "array" v.dataType.name)) ∧ waiting' = waiting
  /-- If there is an element, the first one is emitted with the number of those that are left. -/
  served : TakesArray a.activation.inputs → ∀ item rest, waiting ++ arrived a.activation.inputs = item :: rest →
    ended = .result (.ok ⟨[("item", item)], [("remaining", .integer waiting'.length)]⟩) ∧ waiting' = rest
  /-- If there is none, nothing is emitted. -/
  drained : TakesArray a.activation.inputs → waiting ++ arrived a.activation.inputs = [] →
    ended = .result (.ok .empty) ∧ waiting' = []

theorem serves_attempt (a : Attempt) (d : Detached) :
    Serves a d.memory (distributeBehavior.attempt a d).1 (distributeBehavior.attempt a d).2.memory where
  refused v hv hnull harray := by
    rw [attempt_distribute_refused hv hnull harray]
    exact ⟨rfl, rfl⟩
  served ha item rest heq := by
    obtain ⟨d', hattempt, hmemory⟩ := attempt_distribute ha d
    rw [heq] at hattempt hmemory
    rw [hattempt, hmemory]
    exact ⟨rfl, rfl⟩
  drained ha heq := by
    obtain ⟨d', hattempt, hmemory⟩ := attempt_distribute ha d
    rw [heq] at hattempt hmemory
    rw [hattempt, hmemory]
    exact ⟨rfl, rfl⟩

/-! ### Any number of activations -/

theorem attempts_attemptAll (b : Behavior) (attempts : List Attempt) (d : Detached) :
    (b.attemptAll attempts d).1.map Prod.fst = attempts := by
  induction attempts generalizing d with
  | nil => rfl
  | cons a rest ih => exact congrArg (a :: ·) (ih _)

/-- **Nothing is lost, and nothing overtakes.** -/
theorem emitted_append_waiting (attempts : List Attempt) (d : Detached) :
    (distributeBehavior.attemptAll attempts d).1.flatMap emitted ++
        (distributeBehavior.attemptAll attempts d).2.memory =
      d.memory ++ (distributeBehavior.attemptAll attempts d).1.flatMap accepted := by
  induction attempts generalizing d with
  | nil => exact (List.append_nil d.memory).symm
  | cons a rest ih =>
    have hfirst := emitted_append_memory a d
    have hrest := ih (distributeBehavior.attempt a d).2
    simp only [Behavior.attemptAll, List.flatMap_cons]
    rw [List.append_assoc, hrest, ← List.append_assoc, hfirst, List.append_assoc]

/-- **The elements that wait are a lossless queue.** After any activations, with whatever inputs, the elements that were emitted
and those that wait are the elements of all arrays that were accepted, in order. There is work left if and only if an element
waits. The next activation is refused if something has come that is no array, and then what waits goes on to wait; else it emits
the first element that there is, with the number of those that wait behind it, or nothing if there is none. -/
theorem lossless_queue (x : Executor) (attempts : List Attempt) :
    let history := (distributeBehavior.attemptAll attempts (.initial x [])).1
    let d := (distributeBehavior.attemptAll attempts (.initial x [])).2
    history.map Prod.fst = attempts ∧ history.flatMap emitted ++ d.memory = history.flatMap accepted ∧
      (distributeBehavior.hasPendingWork d.memory = true ↔ d.memory ≠ []) ∧
      ∀ next, Serves next d.memory (distributeBehavior.attempt next d).1 (distributeBehavior.attempt next d).2.memory := by
  refine ⟨attempts_attemptAll .., emitted_append_waiting .., ?_, fun next => serves_attempt next _⟩
  simp [distributeBehavior]

/-- Two elements come, of which one is `null`, then a text that is refused, and then nothing more. -/
example (x : Executor) :
    let given (inputs : NamedValues) : Attempt := ⟨{ (default : Activation) with inputs }, false⟩
    let attempts := [given [("items", .array [.null, .integer 7])], given [("items", .string "seven")], given []]
    let served := distributeBehavior.attemptAll attempts (.initial x [])
    served.1.map emitted = [[.null], [], [.integer 7]] ∧ served.2.memory = [] :=
  ⟨rfl, rfl⟩

end Standard

end Dataflow
