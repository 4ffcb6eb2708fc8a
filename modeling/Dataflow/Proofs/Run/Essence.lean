import Dataflow.Proofs.Run.Events
import Dataflow.Proofs.Run.Pledges

/-!
# What a run comes to

Much of what happens in a run does not matter in the end: how the activations of an iteration take turns, when time
passes, when the executor is paused. The essence of a run leaves this out. It goes from state to state on its own,
once it is settled in which order the activations of each iteration end.

* `Essence` is the state that is left, and `Stage` where it stands;
* `Essence.next?` goes on from it, with the events on the way: an iteration begins, an activation is settled, outputs
  are moved, a relay is activated;
* `Essence.Leads` goes on any number of times, and `Essence.Leads.unique` says that it comes to one end only;
* `Essence.Before` says that iterations do not come again, and that what is settled stays settled.
-/

namespace Dataflow

namespace EventKind

/-- What matters of an event, if the event matters: the progress of iterations and activations and the movements of
values, but not how long they took. -/
def essence? : EventKind → Option EventKind
  | iteration number => some (iteration number)
  | nodeStarted node typeId => some (nodeStarted node typeId)
  | nodeCompleted node success error _ => some (nodeCompleted node success error 0)
  | dataPropagated node transfers => some (dataPropagated node transfers)
  | started .. | stateChanged .. | nodeEvent .. | completed _ | cancelled _ | failed .. => none

/-- What matters of some events. -/
def essentials (kinds : List EventKind) : List EventKind :=
  kinds.filterMap essence?

theorem essentials_append (kinds kinds' : List EventKind) :
    essentials (kinds ++ kinds') = essentials kinds ++ essentials kinds' :=
  List.filterMap_append

end EventKind

namespace Graph

theorem failureLine_fulfilled (g : Graph) (pledges : List Pledge) (id : NodeId) (message : String) :
    (g.fulfilled pledges).failureLine id message = g.failureLine id message := by
  unfold failureLine labelOf
  rw [node?_fulfilled]
  cases g.node? id with
  | none => rfl
  | some n =>
    obtain ⟨memory, hf⟩ := fulfil_eq pledges id n
    rw [Option.map_some, hf]

/-- Begin activations of the given nodes: what they are pledged to, and the graph then. -/
def engage (context : Context) (iteration : Nat) : List NodeId → Nat → Graph → List Pledge × Graph
  | [], _, g => ([], g)
  | id :: rest, index, g =>
    match g.node? id with
    | none => engage context iteration rest index g
    | some n =>
      let script := n.behavior.activate (n.activation n.prepare.1 iteration context) n.memory
      let (pledges, g) := engage context iteration rest (index + 1) (g.setNode n.prepare.2)
      (⟨id, index, script⟩ :: pledges, g)

end Graph

/-- The results that activations come to, by node. -/
def promises (pledges : List Pledge) : Table NodeId (Except NodeError Output) :=
  pledges.map fun p => (p.node, p.result)

theorem promises_perm {pledges pledges' : List Pledge} (h : pledges.Perm pledges') : (promises pledges).Perm (promises pledges') :=
  h.map _

/-- Where the essence of a run stands. -/
inductive Stage where
  /-- An iteration is about to begin. -/
  | idle
  /-- Activations have begun, some of which are settled; the others have the promised results. -/
  | settling (ready : List NodeId) (promise : NodeId → Option (Except NodeError Output)) (settled : List NodeId)
      (failures : List String)
  /-- Outputs are moved. -/
  | moving (agenda : Agenda)
  /-- A relay is active, with a given ending. -/
  | relaying (node : NodeId) (halt : Halt) (depth : Nat) (agenda : Agenda)
  | ended (outcome : Outcome)
  | broken (message : String)

/-- The nodes whose activations are settled, while others are under way. -/
def Stage.settled? : Stage → Option (List NodeId)
  | settling _ _ settled _ => some settled
  | _ => none

/-- What matters of a run. -/
structure Essence where
  context : Context
  /-- The graph, where the nodes remember already what they will remember after their activations. -/
  graph : Graph
  iteration : Nat
  fired : List NodeId
  stage : Stage

/-- What the end of a run depends on, besides where it stands. -/
structure Terms where
  maxRelayDepth : Nat
  /-- The order in which the activations of an iteration are settled. -/
  order : Nat → List NodeId

namespace Essence

/-- Begin an iteration, or end if no node is ready. -/
def begin (e : Essence) : List EventKind × Essence :=
  let (ready, fired) := Run.collectReady e.graph e.graph.nodeList e.fired
  if ready.isEmpty then ([], { e with fired, stage := .ended .completed })
  else
    let (pledges, g) := e.graph.engage e.context (e.iteration + 1) ready 0
    (.iteration (e.iteration + 1) :: Run.startings ready e.graph,
      { e with
        graph := g.fulfilled pledges, iteration := e.iteration + 1, fired
        stage := .settling ready (fun id => Table.find? id (promises pledges)) [] [] })

/-- Settle an activation. -/
def settle (e : Essence) (ready : List NodeId) (promise : NodeId → Option (Except NodeError Output))
    (settled : List NodeId) (failures : List String) (id : NodeId) (result : Except NodeError Output) :
    List EventKind × Essence :=
  let g := e.graph.settle id result
  let failures := match e.graph.completion id result with
    | .ok () => failures
    | .error error => failures ++ [g.failureLine id error.message]
  (Run.completed e.graph id result 0,
    { e with graph := g, stage := .settling ready (fun k => if k = id then none else promise k) (settled ++ [id]) failures })

/-- All activations are settled: clear their inputs and go on to their outputs, or fail. -/
def passBarrier (e : Essence) (ready : List NodeId) (failures : List String) : Essence :=
  if failures.isEmpty then { e with graph := e.graph.replay (ready.map .clear), stage := .moving ⟨[], ready⟩ }
  else { e with stage := .ended (.failed ("; ".intercalate failures)) }

/-- Move the outputs of a node. -/
def propagate (e : Essence) (id : NodeId) (depth : Nat) (agenda : Agenda) : List EventKind × Essence :=
  let d := e.graph.transferOutputs id
  (if d.transfers.isEmpty then [] else [.dataPropagated id d.transfers],
    match d.failure with
    | some error => { e with graph := d.graph, stage := .ended (.failed error) }
    | none =>
      let triggered := (d.relays.filter d.graph.isReady).map fun relay => Work.activate relay (depth + 1)
      { e with graph := d.graph, stage := .moving { agenda with work := triggered ++ agenda.work } })

/-- Activate a relay, if it is still ready and the chain is not too long. -/
def reach (t : Terms) (e : Essence) (id : NodeId) (depth : Nat) (agenda : Agenda) : List EventKind × Essence :=
  match e.graph.node? id with
  | none => ([], { e with stage := .moving agenda })
  | some n =>
    if !e.graph.isReady id then ([], { e with stage := .moving agenda })
    else if t.maxRelayDepth < depth then
      ([], { e with stage := .ended (.failed (e.graph.failureLine id
        ("direct-through relay depth limit of " ++ toString t.maxRelayDepth ++ " exceeded"))) })
    else
      let script := n.behavior.activate (n.activation n.prepare.1 e.iteration e.context) n.memory
      ([.nodeStarted n.id n.typeId],
        { e with
          graph := (e.graph.setNode n.prepare.2).fulfilled [⟨n.id, 0, script⟩]
          stage := .relaying n.id script.halt depth agenda })

/-- End the activation of a relay. -/
def conclude (e : Essence) (id : NodeId) (halt : Halt) (depth : Nat) (agenda : Agenda) : List EventKind × Essence :=
  match halt with
  | .panicked message => ([], { e with stage := .broken message })
  | .finished result =>
    let g := e.graph.settle id result
    (Run.completed e.graph id result 0,
      match e.graph.completion id result with
      | .error error => { e with graph := g, stage := .ended (.failed (g.failureLine id error.message)) }
      | .ok () =>
        { e with
          graph := g.enact (.clear id)
          stage := .moving { agenda with work := .propagate id depth :: agenda.work } })

/-- Go on, with the events on the way; none if the run has come to its end. -/
def next? (t : Terms) (e : Essence) : Option (List EventKind × Essence) :=
  match e.stage with
  | .idle => some e.begin
  | .settling ready promise settled failures =>
    match (t.order e.iteration)[settled.length]?.bind fun id => (promise id).map (id, ·) with
    | some (id, result) => some (e.settle ready promise settled failures id result)
    | none => some ([], e.passBarrier ready failures)
  | .moving ⟨.propagate id depth :: work, origins⟩ => some (e.propagate id depth ⟨work, origins⟩)
  | .moving ⟨.activate id depth :: work, origins⟩ => some (e.reach t id depth ⟨work, origins⟩)
  | .moving ⟨[], id :: origins⟩ => some ([], { e with stage := .moving ⟨[.propagate id 0], origins⟩ })
  | .moving ⟨[], []⟩ => some ([], { e with stage := .idle })
  | .relaying id halt depth agenda => some (e.conclude id halt depth agenda)
  | .ended _ | .broken _ => none

/-- Go on any number of times, with the events on the way. -/
inductive Leads (t : Terms) : Essence → List EventKind → Essence → Prop
  | refl (e : Essence) : Leads t e [] e
  | step {e e₁ e' : Essence} {kinds kinds' : List EventKind} (h : e.next? t = some (kinds, e₁))
      (hrest : Leads t e₁ kinds' e') : Leads t e (kinds ++ kinds') e'

/-- An essence comes before another: in an earlier iteration, or in the same one, where what is settled stays settled. -/
def Before (e e' : Essence) : Prop :=
  e.iteration < e'.iteration ∨ e.iteration = e'.iteration ∧
    ∀ settled', e'.stage.settled? = some settled' → ∃ settled, e.stage.settled? = some settled ∧ settled <+: settled'

theorem Before.refl (e : Essence) : e.Before e :=
  Or.inr ⟨rfl, fun settled h => ⟨settled, h, List.prefix_refl settled⟩⟩

theorem Before.trans {e e' e'' : Essence} (h : e.Before e') (h' : e'.Before e'') : e.Before e'' := by
  rcases h with hlt | ⟨heq, hsettled⟩
  · rcases h' with hlt' | ⟨heq', -⟩
    · exact Or.inl (hlt.trans hlt')
    · exact Or.inl (heq' ▸ hlt)
  · rcases h' with hlt' | ⟨heq', hsettled'⟩
    · exact Or.inl (heq ▸ hlt')
    · refine Or.inr ⟨heq.trans heq', fun settled'' h => ?_⟩
      obtain ⟨settled', h, hprefix'⟩ := hsettled' settled'' h
      obtain ⟨settled, h, hprefix⟩ := hsettled settled' h
      exact ⟨settled, h, hprefix.trans hprefix'⟩

/-- Nothing is settled once outputs are moved. -/
theorem before_of_none {e e' : Essence} (hiteration : e.iteration = e'.iteration) (hnone : e'.stage.settled? = none) :
    e.Before e' :=
  Or.inr ⟨hiteration, fun settled' h => by rw [hnone] at h; cases h⟩

theorem before_begin (e : Essence) : e.Before e.begin.2 := by
  unfold begin
  dsimp only
  split_ifs
  · exact before_of_none rfl rfl
  · exact Or.inl (Nat.lt_succ_self _)

theorem before_propagate (e : Essence) (id : NodeId) (depth : Nat) (agenda : Agenda) :
    e.Before (e.propagate id depth agenda).2 := by
  unfold propagate
  dsimp only
  split <;> exact before_of_none rfl rfl

theorem before_reach (t : Terms) (e : Essence) (id : NodeId) (depth : Nat) (agenda : Agenda) :
    e.Before (e.reach t id depth agenda).2 := by
  unfold reach
  split
  · exact before_of_none rfl rfl
  · split_ifs <;> exact before_of_none rfl rfl

theorem before_conclude (e : Essence) (id : NodeId) (halt : Halt) (depth : Nat) (agenda : Agenda) :
    e.Before (e.conclude id halt depth agenda).2 := by
  unfold conclude
  split
  · exact before_of_none rfl rfl
  · dsimp only
    split <;> exact before_of_none rfl rfl

theorem before_next {t : Terms} {e e' : Essence} {kinds : List EventKind} (h : e.next? t = some (kinds, e')) : e.Before e' := by
  have hsnd : ∀ {o : List EventKind × Essence}, some o = some (kinds, e') → o.2 = e' := fun h =>
    congrArg Prod.snd (Option.some.inj h)
  unfold next? at h
  split at h
  · exact hsnd h ▸ before_begin e
  · rename_i ready promise settled failures hstage
    split at h
    · -- One more activation is settled, after those that were settled before.
      refine hsnd h ▸ Or.inr ⟨rfl, fun settled' h => ⟨settled, by rw [hstage]; rfl, ?_⟩⟩
      cases h
      exact List.prefix_append _ _
    · rw [← hsnd h]
      unfold passBarrier
      split_ifs <;> exact before_of_none rfl rfl
  · exact hsnd h ▸ before_propagate ..
  · exact hsnd h ▸ before_reach ..
  · exact hsnd h ▸ before_of_none rfl rfl
  · exact hsnd h ▸ before_of_none rfl rfl
  · exact hsnd h ▸ before_conclude ..
  · cases h
  · cases h

namespace Leads

variable {t : Terms} {e e₁ e' e'' : Essence} {kinds kinds' : List EventKind}

theorem before (h : Leads t e kinds e') : e.Before e' := by
  induction h with
  | refl e => exact .refl e
  | step hs _ ih => exact (before_next hs).trans ih

theorem single (h : e.next? t = some (kinds, e')) : Leads t e kinds e' := by
  rw [← List.append_nil kinds]
  exact .step h (.refl e')

theorem of_eq (h : e = e') : Leads t e [] e' :=
  h ▸ .refl e

theorem trans (h : Leads t e kinds e') (h' : Leads t e' kinds' e'') : Leads t e (kinds ++ kinds') e'' := by
  induction h with
  | refl e => exact h'
  | step hs _ ih =>
    rw [List.append_assoc]
    exact .step hs (ih h')

/-- **Whoever goes on until the end comes to the same end, with the same events on the way.** -/
theorem unique (h : Leads t e kinds e') (hend : e'.next? t = none) (h' : Leads t e kinds' e'') (hend' : e''.next? t = none) :
    kinds = kinds' ∧ e' = e'' := by
  -- To go on is a function of the essence, so that neither stops before the other, nor takes another way.
  induction h generalizing kinds' with
  | refl e =>
    cases h' with
    | refl => exact ⟨rfl, rfl⟩
    | step hs _ =>
      rw [hend] at hs
      cases hs
  | step hs _ ih =>
    cases h' with
    | refl =>
      rw [hend'] at hs
      cases hs
    | step hs' hrest' =>
      rw [hs] at hs'
      cases hs'
      obtain ⟨hkinds, he⟩ := ih hend hrest'
      exact ⟨by rw [hkinds], he⟩

end Leads

end Essence

end Dataflow
