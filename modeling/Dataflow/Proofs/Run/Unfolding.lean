import Dataflow.Proofs.Run.Barrier
import Dataflow.Proofs.Run.Quiescence

/-!
# How a run unfolds

Where a run gets if nobody steers it, and what happens to its graph on the way there.

* `Run.Unfolds` says that a run comes to some state, as `Run.Comes` does, after acts of some kind;
* `Run.Unfolds.bind` puts two stretches of a run together, and `Run.Unfolds.of_drive` puts a step of the driver before one;
* `Run.Unfolds.of_fair`: every endless sequence of steps that is fair to the run gets there, by such acts;
* `Run.Unfolds.of_follow`: if it unfolds to its end, any steps that lead to an end lead to this one;
* `Act.received` are the inputs with which the activations of a node begin among some acts.
-/

namespace Dataflow

/-- The inputs with which the activations of a node begin among some acts, one after the other. -/
def Act.received (id : NodeId) (acts : List Act) : List NamedValues :=
  acts.filterMap fun
    | .prepare a => if a.node = id then some a.inputs else none
    | _ => none

theorem Act.received_append (id : NodeId) (acts acts' : List Act) :
    received id (acts ++ acts') = received id acts ++ received id acts' :=
  List.filterMap_append

/-- Whether a deed is a call to the executor. -/
def Deed.isCall : Deed → Bool
  | call _ => true
  | _ => false

namespace Run

/-- As long as no call is made, the run comes to a state of some kind after finitely many steps, in the same sense as in
`Comes`. What the steps do to the graph comes after the acts that were before. -/
inductive Unfolds (P : List Act → Run → Prop) : List Act → Run → Prop
  | here {acts : List Act} {r : Run} (h : P acts r) : Unfolds P acts r
  | onward {acts : List Act} {r : Run}
      (hcan : ∃ s, s.goesOn = true ∧ ∃ ms₀, ∀ ms ≥ ms₀, ((r.wait ms).step? s).isSome)
      (hall : ∀ ms s r', s.goesOn = true → Deed.Silent ((r.wait ms).deeds s) → (r.wait ms).step? s = some r' →
        Unfolds P (acts ++ (r.wait ms).acts s) r') : Unfolds P acts r

section Unfolds

variable {P Q : List Act → Run → Prop} {acts : List Act} {r : Run}

/-- A run goes on from where it has got. -/
theorem Unfolds.bind (h : Unfolds P acts r) (hnext : ∀ acts r, P acts r → Unfolds Q acts r) : Unfolds Q acts r := by
  induction h with
  | here hP => exact hnext _ _ hP
  | onward hcan _ ih => exact .onward hcan ih

theorem Unfolds.mono (h : Unfolds P acts r) (himp : ∀ acts r, P acts r → Q acts r) : Unfolds Q acts r :=
  h.bind fun acts r hP => .here (himp acts r hP)

/-- Where only the driver can go on, and does not have to wait, the run unfolds if it does so after this step. -/
theorem Unfolds.of_drive (hp : r.phase.isActivating = false) (hcan : ∀ ms, ((r.wait ms).step? .drive).isSome)
    (h : ∀ ms r', (r.wait ms).step? .drive = some r' → Deed.Silent ((r.wait ms).deeds .drive) →
      Unfolds P (acts ++ (r.wait ms).acts .drive) r') : Unfolds P acts r := by
  refine .onward ⟨.drive, rfl, 0, fun ms _ => hcan ms⟩ fun ms s r' hgo hsilent hs => ?_
  cases s with
  | drive => exact h ms r' hs hsilent
  | run node =>
    obtain ⟨batch, task, hb, -⟩ := runNode?_eq_some.1 hs
    rw [show r.phase = .activating batch from hb] at hp
    cases hp
  | wake node =>
    obtain ⟨batch, sleeper, hb, -⟩ := wakeNode?_eq_some.1 hs
    rw [show r.phase = .activating batch from hb] at hp
    cases hp
  | control | pass => cases hgo

/-- What happened to the graph in the first steps of a sequence. -/
def firstActs (states : Nat → Run) (signals : Nat → Signal) (n : Nat) : List Act :=
  (List.range n).flatMap fun i => (states i).acts (signals i)

/-- **A run that unfolds to a state does so in every fair sequence of steps.** -/
theorem Unfolds.of_fair {states : Nat → Run} {signals : Nat → Signal} (hunfolds : Unfolds P acts (states 0))
    (h : Fair states signals) : ∃ i, P (acts ++ firstActs states signals i) (states i) := by
  generalize hr : states 0 = r at hunfolds
  induction hunfolds generalizing states signals with
  | @here acts r hP => exact ⟨0, by rwa [hr, firstActs, List.range_zero, List.flatMap_nil, List.append_nil]⟩
  | @onward acts r hcan _ ih =>
    subst hr
    obtain ⟨s, hgo, hlater⟩ := hcan
    obtain ⟨j, -, hj⟩ := h.fair 0 s hgo hlater
    have hexists : ∃ n, (signals n).goesOn = true := ⟨j, hj⟩
    -- The first step by which the run goes on comes after some time, in which nothing happens to the graph.
    obtain ⟨n, hn, hfirst⟩ : ∃ n, (signals n).goesOn = true ∧ ∀ i < n, (signals i).goesOn = false :=
      ⟨Nat.find hexists, Nat.find_spec hexists, fun i hi => by simpa using Nat.find_min hexists hi⟩
    have hidle : firstActs states signals n = [] := by
      refine List.flatMap_eq_nil_iff.2 fun i hi => ?_
      have hrests := hfirst i (List.mem_range.1 hi)
      cases hs : signals i with
      | control | pass => rfl
      | drive | run | wake => rw [hs] at hrests; cases hrests
    obtain ⟨ms, hms⟩ := h.wait hfirst
    obtain ⟨i, hP⟩ := ih ms (signals n) (states (n + 1)) hn (hms ▸ h.silent n) (hms ▸ h.steps n) (h.drop (n + 1)) rfl
    refine ⟨n + 1 + i, ?_⟩
    have hsplit : firstActs states signals (n + 1 + i) =
        (states n).acts (signals n) ++ firstActs (fun j => states (n + 1 + j)) (fun j => signals (n + 1 + j)) i := by
      unfold firstActs at hidle ⊢
      rw [List.range_add, List.flatMap_append, List.range_succ, List.flatMap_append, hidle, List.flatMap_map,
        List.flatMap_singleton, List.nil_append]
    rw [hsplit, ← List.append_assoc, hms]
    exact hP

/-- Whether a run goes on by some steps, without a call in any of them. -/
def goesBy (r : Run) : List Signal → Bool
  | [] => true
  | s :: rest => s.goesOn && (r.deeds s).all (fun d => !d.isCall) && (r.step? s).all fun r => goesBy r rest

theorem step?_of_over {s : Signal} {result : ExecutionResult} (hp : r.phase = .over result) (hgo : s.goesOn = true) :
    r.step? s = none := by
  cases s with
  | drive => simp only [step?, drive?, hp]
  | run node => simp only [step?, runNode?, hp]
  | wake node => simp only [step?, wakeNode?, hp]
  | control | pass => cases hgo

/-- **A run that unfolds to its end gets there by any steps that lead to an end.** -/
theorem Unfolds.of_follow {signals : List Signal} {r' : Run} (h : r.Unfolds P acts)
    (hP : ∀ acts r, P acts r → r.phase.isFinal = true) (hgoes : r.goesBy signals = true)
    (hfollow : r.follow signals = some r') (hfinal : r'.phase.isFinal = true) : P (acts ++ r.trail signals) r' := by
  induction signals generalizing r acts with
  | nil =>
    obtain rfl := Option.some.inj hfollow
    rw [trail, List.append_nil]
    cases h with
    | here hend => exact hend
    | onward hcan =>
      obtain ⟨result, hp⟩ := Phase.eq_over_of_isFinal hfinal
      obtain ⟨s, hgo, ms, hsome⟩ := hcan
      have hstep := hsome ms le_rfl
      rw [step?_of_over (show (r.wait ms).phase = .over result from hp) hgo] at hstep
      cases hstep
  | cons s rest ih =>
    obtain ⟨r₁, hs, hrest⟩ := Option.bind_eq_some_iff.1 hfollow
    simp only [goesBy, hs, Option.all_some, Bool.and_eq_true] at hgoes
    obtain ⟨⟨hgo, hcalls⟩, hgoes⟩ := hgoes
    have hsilent : Deed.Silent (r.deeds s) := fun c hc => by simpa [Deed.isCall] using List.all_eq_true.1 hcalls _ hc
    rw [trail, hs, Option.elim_some, ← List.append_assoc]
    refine ih ?_ hgoes hrest
    cases h with
    | here hend =>
      obtain ⟨result, hp⟩ := Phase.eq_over_of_isFinal (hP _ _ hend)
      rw [step?_of_over hp hgo] at hs
      cases hs
    | onward _ hall => exact hall 0 s r₁ hgo hsilent hs

end Unfolds

end Run

end Dataflow
