import Dataflow.Proofs.Run.Failures
import Dataflow.Proofs.Run.Twins

/-!
# The order in which activations are settled

The activations of an iteration are settled in the order in which they end. Each of them writes to its own node only, so the
order shows in nothing but the identifiers of new element ports.

* `Act.share` is what the activation of one node does among some acts; `Graph.Grown.share_replay`: nothing else shows at
  this node;
* `Graph.Grown.resembles_replay`: graphs look alike after acts in which every activation has the same share;
* `Run.barrier_confluent`: in whatever order the activations of an iteration are settled, the graph is the same but for
  the identifiers of new element ports, and the run goes on in the same way.
-/

namespace Dataflow

namespace Act

/-- What the activation of a node does among some acts. -/
def share (id : NodeId) (acts : List Act) : List Act :=
  acts.filter fun act => act.subject? = some id

theorem share_cons_self {act : Act} {id : NodeId} (h : act.subject? = some id) (acts : List Act) :
    share id (act :: acts) = act :: share id acts :=
  List.filter_cons_of_pos (by simpa using h)

theorem share_cons_other {act : Act} {id k : NodeId} (h : act.subject? = some k) (hne : k ≠ id) (acts : List Act) :
    share id (act :: acts) = share id acts :=
  List.filter_cons_of_neg (by simpa [h] using hne)

end Act

namespace Graph

variable {s : Supply} {g g' : Graph}

/-- A consistent graph has grown out of itself. -/
theorem Consistent.grown (hg : g.Consistent) : g.Grown g.supply where
  identified := hg.toIdentified
  owned := ⟨hg.proper, fun {p id} => hg.agrees.owner p id⟩
  le := le_refl _
  ends := hg.ends
  targets {p} hp := by
    obtain ⟨sources, hfind⟩ := Option.isSome_iff_exists.1 hp
    obtain ⟨q, hq⟩ := List.exists_mem_of_ne_nil sources fun hnil => hg.filled p (hnil ▸ hfind)
    have hin : q ∈ g.incoming p := by rwa [incoming, hfind]
    rw [hg.agrees.incoming, Edge.mem_sourcesOf, ← Edge.mem_targetsOf, ← hg.agrees.outgoing] at hin
    exact (hg.ends hin).2
  edges {e} he := by
    have hout : e.target ∈ g.outgoing e.source := by
      rw [hg.agrees.outgoing, Edge.mem_targetsOf]
      exact (hg.agrees.edgeSet e).1 he
    exact (hg.ends hout).2

/-! ### What one activation does -/

section Share

variable {act : Act} {acts : List Act} {id k : NodeId}

/-- What an activation does shows in the same way at nodes that look alike. -/
theorem Grown.view_enact_subject (hg : g.Grown s) (hg' : g'.Grown s) (hview : g'.view s id = g.view s id)
    (hact : act.subject? = some id) :
    (g'.enact act).view s id = (g.enact act).view s id ∧ g'.verdict? act = g.verdict? act := by
  have hnamed := hg.identified.isNamed
  have hnamed' := hg'.identified.isNamed
  cases act with
  | remember k memory =>
    cases hact
    exact ⟨by rw [view_remember hnamed', hview, ← view_remember hnamed], rfl⟩
  | settle k result =>
    cases hact
    refine ⟨view_settle hnamed hnamed' hg.le hg'.le hview result, ?_⟩
    simp only [verdict?, completion_view hg.le hg'.le hview result]
  | _ => cases hact

/-- What an activation does does not show at other nodes. -/
theorem Grown.view_enact_other (hg : g.Grown s) (hact : act.subject? = some k) (hne : k ≠ id) :
    (g.enact act).view s id = g.view s id := by
  have hnamed := hg.identified.isNamed
  cases act with
  | remember k memory =>
    cases hact
    rw [view_remember hnamed, if_neg hne]
  | settle k result =>
    cases hact
    exact view_settle_other hnamed hne result
  | _ => cases hact

theorem node_of_verdict? {v : Verdict} (h : g.verdict? act = some v) : act.subject? = some v.node := by
  cases act with
  | settle k result =>
    cases h
    rfl
  | _ => cases h

/-- **Nothing shows at a node but what its own activation does**, and the verdicts on it are the same. -/
theorem Grown.share_replay (hg : g.Grown s) (hg' : g'.Grown s) (hview : g'.view s id = g.view s id)
    (hsub : ∀ act ∈ acts, ∃ k, act.subject? = some k) :
    (g'.replay (Act.share id acts)).view s id = (g.replay acts).view s id ∧
      g'.verdicts (Act.share id acts) = (g.verdicts acts).filter (·.node = id) := by
  induction acts generalizing g g' with
  | nil => exact ⟨hview, rfl⟩
  | cons act rest ih =>
    obtain ⟨⟨k, hk⟩, hrest⟩ := List.forall_mem_cons.1 hsub
    rw [verdicts, List.filter_append, replay_cons]
    by_cases hid : k = id
    · subst hid
      obtain ⟨hview', hverdict⟩ := hg.view_enact_subject hg' hview hk
      obtain ⟨hlast, hverdicts⟩ := ih (hg.enact act) (hg'.enact act) hview' hrest
      have hown : (g.verdict? act).toList.filter (·.node = k) = (g.verdict? act).toList := by
        refine List.filter_eq_self.2 fun v hv => ?_
        rw [decide_eq_true_eq, ← Option.some_inj, ← hk, node_of_verdict? (Option.mem_toList.1 hv)]
      rw [Act.share_cons_self hk, replay_cons, verdicts, hverdict, hverdicts, hown]
      exact ⟨hlast, rfl⟩
    · have hnone : (g.verdict? act).toList.filter (·.node = id) = [] := by
        refine List.filter_eq_nil_iff.2 fun v hv hnode => hid ?_
        rw [← Option.some_inj, ← hk, node_of_verdict? (Option.mem_toList.1 hv), of_decide_eq_true hnode]
      rw [Act.share_cons_other hk hid, hnone, List.nil_append]
      exact ih (hg.enact act) hg' (hview.trans (hg.view_enact_other hk hid).symm) hrest

end Share

/-! ### All activations in some order -/

theorem Grown.replay (h : g.Grown s) (acts : List Act) : (g.replay acts).Grown s := by
  induction acts generalizing g with
  | nil => exact h
  | cons act acts ih => exact ih (h.enact act)

section Orders

variable {acts₁ acts₂ : List Act} (hg : g.Grown s) (hsub₁ : ∀ act ∈ acts₁, ∃ k, act.subject? = some k)
  (hsub₂ : ∀ act ∈ acts₂, ∃ k, act.subject? = some k) (hsame : ∀ id, Act.share id acts₁ = Act.share id acts₂)

include hg hsub₁ hsub₂ hsame

/-- **Graphs look alike after the same activations, in whatever order.** -/
theorem Grown.resembles_replay : (g.replay acts₁).Resembles s (g.replay acts₂) := by
  obtain ⟨hedges₁, hset₁, hflagged₁, hout₁, hin₁⟩ := frame_replay hg.identified acts₁
  obtain ⟨hedges₂, hset₂, hflagged₂, hout₂, hin₂⟩ := frame_replay hg.identified acts₂
  refine ⟨hg.replay acts₁, hg.replay acts₂, by rw [order_replay, order_replay], hedges₂.trans hedges₁.symm,
    hset₂.trans hset₁.symm, hflagged₂.trans hflagged₁.symm, hout₂.trans hout₁.symm, hin₂.trans hin₁.symm, fun id => ?_⟩
  rw [← (hg.share_replay hg rfl hsub₁).1, ← (hg.share_replay hg rfl hsub₂).1, hsame]

/-- The verdicts are the same, but for their order. -/
theorem Grown.verdicts_perm : (g.verdicts acts₁).Perm (g.verdicts acts₂) := by
  classical
  refine List.perm_iff_count.2 fun v => ?_
  have hcount : ∀ verdicts : List Verdict, verdicts.count v = (verdicts.filter (·.node = v.node)).count v := fun verdicts =>
    (List.count_filter (p := fun w : Verdict => decide (w.node = v.node)) (decide_eq_true rfl)).symm
  rw [hcount, ← (hg.share_replay hg rfl hsub₁).2, hsame, (hg.share_replay hg rfl hsub₂).2, ← hcount]

end Orders

end Graph

namespace Run

/-! ### While activations are under way -/

section Setting

variable {r r' : Run} {batch : Batch} {signals : List Signal}

/-- A step at which activations are under way changes neither the host settings nor the flag of a single step. -/
theorem setting_step {s : Signal} (hp : r.phase = .activating batch) (h : r.step? s = some r') :
    r'.context = r.context ∧ r'.stepping = r.stepping := by
  cases s with
  | drive =>
    simp only [step?, drive?, hp, whileActivating?] at h
    by_cases hc : r.executor.cancelled = true
    · rw [if_pos hc, Option.some.injEq, abandon_eq] at h
      subst h
      exact ⟨rfl, rfl⟩
    rw [if_neg hc] at h
    cases hf : batch.finished with
    | cons f rest =>
      simp only [hf, Option.some.injEq] at h
      subst h
      have heq := congrArg Prod.snd (r.complete_eq f.node f.startedAt f.result)
      unfold Run.settle
      exact ⟨(congrArg Run.context heq :), (congrArg Run.stepping heq :)⟩
    | nil =>
      simp only [hf] at h
      split_ifs at h
      cases h
      unfold passBarrier
      rw [foldl_clearInputs_eq]
      split_ifs <;> exact ⟨rfl, rfl⟩
  | run node =>
    obtain ⟨b, task, batch', -, -, rfl, -⟩ := runNode_turned h
    rw [perform_eq]
    exact ⟨rfl, rfl⟩
  | wake node =>
    obtain ⟨b, batch', -, rfl, -⟩ := wakeNode_turned h
    exact ⟨rfl, rfl⟩
  | control | pass =>
    cases h
    exact ⟨rfl, rfl⟩

theorem Through.setting (h : r.Through Phase.isActivating signals r') : r'.context = r.context ∧ r'.stepping = r.stepping := by
  induction h with
  | done => exact ⟨rfl, rfl⟩
  | step hp hs _ ih =>
    obtain ⟨batch, hp⟩ := Phase.isActivating_iff.1 hp
    obtain ⟨hcontext, hstepping⟩ := setting_step hp hs
    exact ⟨ih.1.trans hcontext, ih.2.trans hstepping⟩

end Setting

/-! ### One order -/

section Order

variable {r r₀ r' : Run} {batch batch' : Batch} {signals : List Signal}

/-- What an iteration comes to in which all activations were settled, in some order. -/
structure Order (r r₀ r' : Run) (ready : List NodeId) (batch' : Batch) (signals : List Signal) : Prop where
  graph : r'.graph = r₀.graph.replay (r₀.trail signals)
  subjects : ∀ act ∈ r₀.trail signals, ∃ id, act.subject? = some id
  verdicts : r₀.verdicts signals = r₀.graph.verdicts (r₀.trail signals)
  told : (r₀.events signals).filterMap EventKind.told? = (r₀.verdicts signals).map Verdict.told
  failures : batch'.failures = r.graph.lines (r₀.verdicts signals)
  ready : batch'.ready = ready

theorem Launches.order (hl : r.Launches r₀ batch) (hg : r.graph.Identified) (hbatch : r₀.phase = .activating batch)
    (h : r₀.Through Phase.isActivating signals r') (hc : r'.executor.cancelled = false)
    (hp' : r'.phase = .activating batch') : Order r r₀ r' batch.ready batch' signals := by
  have hg₀ : r₀.graph.Identified := hl.graph ▸ hg.replay _
  have hsettles := h.settles hg₀.isNamed hbatch (hl.pending ▸ hl.apart) hc hp'
  have hverdicts : r₀.verdicts signals = r₀.graph.verdicts (r₀.trail signals) := by
    have happend := h.verdicts hg₀.isNamed []
    rwa [List.append_nil, show r'.verdicts [] = [] from rfl, List.append_nil] at happend
  have hpresent : ∀ id ∈ batch.pending, (r₀.graph.node? id).isSome := by
    rw [hl.pending, hl.graph]
    exact fun id hid => Graph.isSome_node?_replay _ (hl.present id hid)
  refine ⟨graph_follow hg₀ h.follow, fun act hact => ?_, hverdicts, hverdicts ▸ hsettles.told hpresent, ?_, hsettles.ready⟩
  · obtain ⟨id, -, hid⟩ := hsettles.subjects act hact
    exact ⟨id, hid⟩
  · rw [hsettles.failures, hl.failures, List.nil_append, hverdicts, hl.graph, Graph.lines_replay hg.isNamed]

end Order

/-! ### Two orders -/

/-- Past the barrier two runs do the same, where activations have failed with these lines: both fail, or both move the
outputs of the same nodes. If calls are answered alike in them, then whatever comes while the first one moves outputs can
come in the second one, which publishes the same events on it and is left with the same graph but for identifiers. -/
inductive Abreast (s : Supply) (ready : List NodeId) (lines₁ lines₂ : List String) (r₁ r₂ : Run) : Prop
  | failed (h₁ : lines₁ ≠ []) (h₂ : lines₂ ≠ []) (hp₁ : r₁.phase = .ending (.failed ("; ".intercalate lines₁)))
      (hp₂ : r₂.phase = .ending (.failed ("; ".intercalate lines₂)))
  | moving (h₁ : lines₁ = []) (h₂ : lines₂ = []) (hp₁ : r₁.phase = .propagating ⟨[], ready⟩)
      (hp₂ : r₂.phase = .propagating ⟨[], ready⟩)
      (hlater : r₂.executor.state = r₁.executor.state → ∀ signals r₁', r₁.Through Phase.isMoving signals r₁' →
        ∃ r₂', r₂.Through Phase.isMoving signals r₂' ∧ r₂.events signals = r₁.events signals ∧
          r₁'.phase.Twin r₁.now r₂.now r₂'.phase ∧ ∃ σ, r₁'.graph.Renames s σ r₂'.graph)

section Barrier

variable {r r₀ r₁ r₂ : Run} {batch batch₁ batch₂ : Batch} {signals₁ signals₂ : List Signal}

theorem Kin.passBarrier {s : Supply} {d d' : Nat} (h : r₁.Kin s d d' r₂) (hfail₁ : batch₁.failures = [])
    (hfail₂ : batch₂.failures = []) (hready : batch₂.ready = batch₁.ready) :
    (r₁.passBarrier batch₁).Twin s d d' (r₂.passBarrier batch₂) := by
  rw [passBarrier_of_nil r₁ hfail₁, passBarrier_of_nil r₂ hfail₂, pass_eq, pass_eq, hready]
  exact { h with graph := h.graph.replay (batch₁.ready.map .clear), phase := .propagating ⟨[], batch₁.ready⟩ }

/-- Runs that have the same lines of failures, but for their order, pass the barrier in the same way. -/
theorem abreast_passBarrier {s : Supply} (hperm : batch₁.failures.Perm batch₂.failures) (hready : batch₂.ready = batch₁.ready)
    (hkin : r₂.executor.state = r₁.executor.state → r₁.Kin s r₁.now r₂.now r₂) :
    Abreast s batch₁.ready batch₁.failures batch₂.failures (r₁.passBarrier batch₁) (r₂.passBarrier batch₂) := by
  have hkept : ∀ (r : Run) {batch : Batch}, batch.failures = [] →
      (r.passBarrier batch).executor = r.executor ∧ (r.passBarrier batch).now = r.now := by
    intro r batch hfail
    rw [passBarrier_of_nil r hfail, pass_eq]
    exact ⟨rfl, rfl⟩
  by_cases hfail₁ : batch₁.failures = []
  · have hfail₂ : batch₂.failures = [] := by rwa [hfail₁, List.nil_perm] at hperm
    refine .moving hfail₁ hfail₂ (by rw [passBarrier_of_nil r₁ hfail₁]; rfl)
      (by rw [passBarrier_of_nil r₂ hfail₂, pass_eq, hready])
      fun hstate signals r₁' hthrough => ?_
    rw [(hkept r₁ hfail₁).1, (hkept r₂ hfail₂).1] at hstate
    rw [(hkept r₁ hfail₁).2, (hkept r₂ hfail₂).2]
    obtain ⟨r₂', hlater, hlast, hevents⟩ := hthrough.twin ((hkin hstate).passBarrier hfail₁ hfail₂ hready)
    exact ⟨r₂', hlater, hevents, hlast.phase, hlast.graph.renames⟩
  · have hfail₂ : batch₂.failures ≠ [] := fun h => hfail₁ (by rwa [h, List.perm_nil] at hperm)
    exact .failed hfail₁ hfail₂ (by rw [passBarrier_phase, if_neg hfail₁]) (by rw [passBarrier_phase, if_neg hfail₂])

/-- **The barrier is confluent.** Let all activations of an iteration be settled in two orders, without a cancellation, where
each activation comes to the same in both. Then the graphs are the same but for the identifiers of new element ports. The
verdicts, what is told of them apart from how long they took, and the lines of failures are the same but for their order.
The driver makes the same kind of step, and if nothing has failed, the same events are published in the same order while
outputs are moved. -/
theorem barrier_confluent (hg : r.graph.Consistent) (hp : r.phase = .boundary) (hbegin : r.step? .drive = some r₀)
    (hbatch : r₀.phase = .activating batch) (h₁ : r₀.Through Phase.isActivating signals₁ r₁)
    (h₂ : r₀.Through Phase.isActivating signals₂ r₂) (hc₁ : r₁.executor.cancelled = false)
    (hc₂ : r₂.executor.cancelled = false) (hp₁ : r₁.phase = .activating batch₁) (hp₂ : r₂.phase = .activating batch₂)
    (hsettled₁ : batch₁.pending = []) (hsettled₂ : batch₂.pending = [])
    (hsame : ∀ id, Act.share id (r₀.trail signals₁) = Act.share id (r₀.trail signals₂)) :
    (∃ σ, r₁.graph.Renames r.graph.supply σ r₂.graph) ∧ (r₀.verdicts signals₁).Perm (r₀.verdicts signals₂) ∧
      ((r₀.events signals₁).filterMap EventKind.told?).Perm ((r₀.events signals₂).filterMap EventKind.told?) ∧
      batch₁.failures.Perm batch₂.failures ∧
      batch₁.failures = r.graph.lines (r₀.verdicts signals₁) ∧ batch₂.failures = r.graph.lines (r₀.verdicts signals₂) ∧
      ∃ r₁' r₂', r₁.step? .drive = some r₁' ∧ r₂.step? .drive = some r₂' ∧
        Abreast r.graph.supply batch.ready batch₁.failures batch₂.failures r₁' r₂' := by
  have hl := launches_step hg.toIdentified hp hbegin hbatch
  have hg₀ : r₀.graph.Grown r.graph.supply := hl.graph ▸ hg.grown.replay _
  have ho₁ := hl.order hg.toIdentified hbatch h₁ hc₁ hp₁
  have ho₂ := hl.order hg.toIdentified hbatch h₂ hc₂ hp₂
  have hgraph : r₁.graph.Resembles r.graph.supply r₂.graph := by
    rw [ho₁.graph, ho₂.graph]
    exact hg₀.resembles_replay ho₁.subjects ho₂.subjects hsame
  have hverdicts : (r₀.verdicts signals₁).Perm (r₀.verdicts signals₂) := by
    rw [ho₁.verdicts, ho₂.verdicts]
    exact hg₀.verdicts_perm ho₁.subjects ho₂.subjects hsame
  have hlines : batch₁.failures.Perm batch₂.failures := by
    rw [ho₁.failures, ho₂.failures]
    exact hverdicts.filterMap _
  have hkin (hstate : r₂.executor.state = r₁.executor.state) : r₁.Kin r.graph.supply r₁.now r₂.now r₂ := {
    graph := hgraph
    executor := {
      config := (executor_follow h₂.follow).2.2.trans (executor_follow h₁.follow).2.2.symm
      state := hstate
      cancelled := hc₂.trans hc₁.symm }
    context := h₂.setting.1.trans h₁.setting.1.symm
    iteration := h₂.iteration.trans h₁.iteration.symm
    stepping := h₂.setting.2.trans h₁.setting.2.symm
    now := Nat.add_comm .. }
  refine ⟨hgraph.renames, hverdicts, ?_, hlines, ho₁.failures, ho₂.failures, r₁.passBarrier batch₁, r₂.passBarrier batch₂,
    (step_pass hp₁ hc₁ hsettled₁).1, (step_pass hp₂ hc₂ hsettled₂).1, ?_⟩
  · rw [ho₁.told, ho₂.told]
    exact hverdicts.map _
  · rw [← ho₁.ready]
    exact abreast_passBarrier hlines (ho₂.ready.trans ho₁.ready.symm) hkin

end Barrier

end Run

/-! ### Two lists in either order -/

namespace Graph

/-- A behavior that lists two numbers. -/
def listing : Behavior :=
  { typeId := "listing", ports := [.output "items" .array]
    activate := fun _ _ => .done ⟨[("items", .array [.integer 1, .integer 2])], []⟩ }

/-- A behavior that takes lists. -/
def gathering : Behavior :=
  { typeId := "gathering", ports := [.input "items" .array], activate := fun _ _ => .done .empty }

/-- Two sources of lists. -/
def leftList : Node × Supply :=
  Node.create ⟨1⟩ "left" listing [] ⟨10⟩

@[inherit_doc leftList]
def rightList : Node × Supply :=
  Node.create ⟨2⟩ "right" listing [] leftList.2

/-- A node that takes their lists. -/
def gatherer : Node × Supply :=
  Node.create ⟨3⟩ "gatherer" gathering [] rightList.2

/-- The two sources, connected to the node that takes their lists. -/
def lists? : Except GraphError Graph := do
  let g ← ({ empty ⟨10⟩ with supply := leftList.2 } : Graph).addNode leftList.1
  let g ← ({ g with supply := rightList.2 } : Graph).addNode rightList.1
  let g ← ({ g with supply := gatherer.2 } : Graph).addNode gatherer.1
  let g ← g.addEdge ⟨12⟩ ⟨18⟩
  g.addEdge ⟨15⟩ ⟨18⟩

/-- The graph that they make up. -/
def lists : Graph :=
  lists?.toOption.getD (empty ⟨0⟩)

theorem built_lists : lists.Built := by
  have h : lists? = .ok lists := rfl
  obtain ⟨g₁, h₁, h⟩ := Except.bind_eq_ok.1 h
  obtain ⟨g₂, h₂, h⟩ := Except.bind_eq_ok.1 h
  obtain ⟨g₃, h₃, h⟩ := Except.bind_eq_ok.1 h
  obtain ⟨g₄, h₄, h⟩ := Except.bind_eq_ok.1 h
  have hleft : g₁.Built := .create (.empty ⟨10⟩) h₁
  have hsupply₁ : g₁.supply = leftList.2 := by rw [(addNode_eq_ok h₁).2]
  have hright : g₂.Built := .create hleft (by rw [hsupply₁]; exact h₂)
  have hsupply₂ : g₂.supply = rightList.2 := by rw [(addNode_eq_ok h₂).2]
  exact .addEdge (.addEdge (.create hright (by rw [hsupply₂]; exact h₃)) h₄) h

end Graph

namespace Run

/-- A run of the two sources, at its start. -/
def listsStart : Run :=
  (start (.create .standard) Graph.lists default .continuous 0).toOption.getD signalStart

/-- The run when its first iteration is under way. -/
def listsBegun : Run :=
  (listsStart.step? .drive).getD listsStart

/-- One of the sources is settled before the other. -/
def settleBoth (first second : NodeId) : List Signal :=
  [.run first, .drive, .run second, .drive]

/-- The run when both sources are settled. -/
def listsSettled (first second : NodeId) : Run :=
  (listsBegun.follow (settleBoth first second)).getD listsBegun

theorem barrier_confluent_lists :
    (∃ σ, (listsSettled ⟨1⟩ ⟨2⟩).graph.Renames listsStart.graph.supply σ (listsSettled ⟨2⟩ ⟨1⟩).graph) ∧
      (listsSettled ⟨1⟩ ⟨2⟩).graph.portIdsOf ⟨1⟩ ≠ (listsSettled ⟨2⟩ ⟨1⟩).graph.portIdsOf ⟨1⟩ := by
  have hstart : start (.create .standard) Graph.lists default .continuous 0 = .ok listsStart := rfl
  have hconsistent : listsStart.graph.Consistent := (Graph.Reached.run Graph.built_lists.reached hstart (.refl _)).consistent
  have hbegin : listsStart.step? .drive = some listsBegun := rfl
  obtain ⟨batch, hbatch⟩ := Phase.isActivating_iff.1 (show listsBegun.phase.isActivating = true by decide +kernel)
  have hleft : listsBegun.Through Phase.isActivating (settleBoth ⟨1⟩ ⟨2⟩) (listsSettled ⟨1⟩ ⟨2⟩) :=
    .step rfl rfl (.step rfl rfl (.step rfl rfl (.step rfl rfl (.done _))))
  have hright : listsBegun.Through Phase.isActivating (settleBoth ⟨2⟩ ⟨1⟩) (listsSettled ⟨2⟩ ⟨1⟩) :=
    .step rfl rfl (.step rfl rfl (.step rfl rfl (.step rfl rfl (.done _))))
  have hsettled : ∀ {r : Run}, r.phase.isActivating = true → r.phase.underway = 0 →
      ∃ batch, r.phase = .activating batch ∧ batch.pending = [] := by
    intro r hunder hnone
    obtain ⟨batch, hp⟩ := Phase.isActivating_iff.1 hunder
    rw [hp] at hnone
    exact ⟨batch, hp, (Multiset.coe_eq_zero _).1 hnone⟩
  obtain ⟨batch₁, hp₁, hsettled₁⟩ := hsettled (r := listsSettled ⟨1⟩ ⟨2⟩) (by decide +kernel) (by decide +kernel)
  obtain ⟨batch₂, hp₂, hsettled₂⟩ := hsettled (r := listsSettled ⟨2⟩ ⟨1⟩) (by decide +kernel) (by decide +kernel)
  have hsame : ∀ id, Act.share id (listsBegun.trail (settleBoth ⟨1⟩ ⟨2⟩)) =
      Act.share id (listsBegun.trail (settleBoth ⟨2⟩ ⟨1⟩)) := by
    let output : Except NodeError Output := .ok ⟨[("items", .array [.integer 1, .integer 2])], []⟩
    have hfirst : listsBegun.trail (settleBoth ⟨1⟩ ⟨2⟩) = [.settle ⟨1⟩ output, .settle ⟨2⟩ output] := rfl
    have hsecond : listsBegun.trail (settleBoth ⟨2⟩ ⟨1⟩) = [.settle ⟨2⟩ output, .settle ⟨1⟩ output] := rfl
    intro id
    rw [hfirst, hsecond]
    by_cases h₁ : (⟨1⟩ : NodeId) = id
    · subst h₁
      rfl
    · by_cases h₂ : (⟨2⟩ : NodeId) = id
      · subst h₂
        rfl
      · simp [Act.share, Act.subject?, h₁, h₂]
  obtain ⟨hrenames, -⟩ := barrier_confluent hconsistent rfl hbegin hbatch hleft hright (by decide +kernel) (by decide +kernel)
    hp₁ hp₂ hsettled₁ hsettled₂ hsame
  exact ⟨hrenames, by decide +kernel⟩

end Run

end Dataflow
