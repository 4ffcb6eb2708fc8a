import Dataflow.Proofs.Run.Reached
import Dataflow.Proofs.Run.Simulation

/-!
# Runs that come to the same end

* `Graph.Reached.hosts`: graphs that were built and run, in whatever order, store each node once;
* `Run.SettlesBy` says that a run settles its activations in a given order, and `Run.Upright.exists_order` that every
  run does in some order;
* `Run.Upright` is the invariant of runs whose behaviors are determined, and `Run.Upright.follow` says that such a run
  goes on from its essence, step by step;
* `Run.Agrees` is what two runs have in common that come to the same end, and `Run.agrees`: runs of one graph agree if
  they settle their activations in the same order.
-/

namespace Dataflow

namespace Graph.Hosts

variable {P : Behavior → Prop} {g : Graph}

theorem imp {Q : Behavior → Prop} (hg : g.Hosts P) (h : ∀ b, P b → Q b) : g.Hosts Q :=
  ⟨hg.order, hg.proper, hg.named, fun hn => h _ (hg.behaves hn)⟩

end Graph.Hosts

/-! ### Graphs that were built and run -/

theorem Table.Proper.erase {κ α : Type} [DecidableEq κ] {key : κ} {table : Table κ α} (hp : Proper table) :
    Proper (erase key table) := by
  have hsublist : (Table.erase key table).Sublist table := by
    induction table with
    | nil => exact List.Sublist.refl _
    | cons entry rest ih =>
      obtain ⟨k, a⟩ := entry
      have hrest := ih (List.nodup_cons.1 hp).2
      unfold Table.erase
      split_ifs
      · exact hrest.cons _
      · exact hrest.cons_cons _
  exact hp.sublist (hsublist.map Prod.fst)

namespace Graph

theorem proper_replay {g : Graph} (hg : g.Identified) (hp : Table.Proper g.nodes) (acts : List Act) :
    Table.Proper (g.replay acts).nodes := by
  induction acts generalizing g with
  | nil => exact hp
  | cons act acts ih =>
    refine ih (hg.enact act) ?_
    rcases enact_cases hg act with he | ⟨n, n', s', -, -, -, ⟨he, -⟩ | he⟩ <;> rw [he]
    · exact hp
    · exact hp.set
    · rw [reindex_nodes]
      exact hp.set

theorem Reached.proper {g : Graph} (hg : g.Reached) : Table.Proper g.nodes := by
  induction hg with
  | empty s => exact List.nodup_nil
  | addNode _ _ _ h ih =>
    rw [(addNode_eq_ok h).2]
    exact ih.set
  | removeNode _ h ih =>
    obtain ⟨es, -, rfl⟩ := removeNode_eq_ok h
    dsimp only
    rw [nodes_unlinkAll]
    exact ih.erase
  | addEdge _ h ih =>
    obtain ⟨-, -, -, -, -, -, -, -, rfl⟩ := addEdge_eq_ok h
    exact ih
  | removeEdge _ p q ih =>
    unfold Graph.removeEdge
    dsimp only
    split_ifs <;> exact ih
  | write _ h ih =>
    obtain ⟨owner, n, n', s', -, -, -, rfl⟩ := write_eq_ok h
    rw [reindex_nodes]
    exact ih.set
  | setPortType _ h ih =>
    obtain ⟨owner, n, n', s', -, -, -, h⟩ := setPortType_eq_ok h
    obtain ⟨-, -, rfl⟩ := checkEdges_eq_ok h
    dsimp only
    rw [reindex_nodes]
    exact ih.set
  | checkEdges _ h ih =>
    obtain ⟨-, -, rfl⟩ := checkEdges_eq_ok h
    exact ih
  | run hg h hr ih =>
    have hid := hg.regular.toIdentified
    rw [hr.graph (Run.start_identified hid h), (Run.start_eq h).2]
    exact proper_replay ((hid.draw (Nat.le_succ _)).replay _) (proper_replay (hid.draw (Nat.le_succ _)) ih _) _

/-- Whatever is done to a graph, and however it is run, each node is stored once. -/
theorem Reached.hosts {P : Behavior → Prop} {g : Graph} (hg : g.Reached)
    (h : ∀ {id : NodeId} {n : Node}, g.node? id = some n → P n.behavior) : g.Hosts P :=
  ⟨hg.regular.nodup, hg.proper, hg.regular.named, h⟩

end Graph

namespace Run

/-! ### The order in which activations are settled -/

/-- A run settles its activations in a given order: at every moment, what is settled of an iteration is the beginning
of what the order says of this iteration. -/
def SettlesBy (order : Nat → List NodeId) (r : Run) (signals : List Signal) : Prop :=
  ∀ before r', before <+: signals → r.follow before = some r' → r'.InOrder order

section SettlesBy

variable {order : Nat → List NodeId} {r r₁ : Run} {s : Signal} {rest : List Signal}

theorem SettlesBy.tail (h : SettlesBy order r (s :: rest)) (hs : r.step? s = some r₁) : SettlesBy order r₁ rest := by
  intro before r' hprefix hf
  refine h (s :: before) r' (List.cons_prefix_cons.2 ⟨rfl, hprefix⟩) ?_
  rw [follow, hs]
  exact hf

theorem SettlesBy.first {signals : List Signal} (h : SettlesBy order r signals) : r.InOrder order :=
  h [] r (List.nil_prefix) rfl

theorem settlesBy_cons (hr : r.InOrder order) (h : ∀ r₁, r.step? s = some r₁ → SettlesBy order r₁ rest) :
    SettlesBy order r (s :: rest) := by
  intro before r' hprefix hf
  cases before with
  | nil =>
    cases hf
    exact hr
  | cons s' before =>
    obtain ⟨rfl, hrest⟩ := List.cons_prefix_cons.1 hprefix
    obtain ⟨r₁, hs, hf⟩ := Option.bind_eq_some_iff.1 hf
    exact h r₁ hs before r' hrest hf

theorem settlesBy_nil (hr : r.InOrder order) : SettlesBy order r [] := by
  intro before r' hprefix hf
  rw [List.prefix_nil.1 hprefix] at hf
  cases hf
  exact hr

end SettlesBy

/-! ### Runs with determined behaviors -/

/-- What holds of a run whose behaviors are determined, with a bound on its chains of relays. -/
structure Upright (silent : Bool) (maxRelayDepth : Nat) (r : Run) : Prop where
  tidy : r.Tidy silent
  keeps : ∃ events, r.Keeps events
  depth : r.executor.config.maxRelayDepth = maxRelayDepth

section Upright

variable {silent : Bool} {d : Nat} {r r' : Run}

theorem Upright.active (h : r.Upright silent d) (hp : r.phase.isFinal = false) : r.executor.state ≠ .idle := by
  obtain ⟨events, hkeeps⟩ := h.keeps
  exact hkeeps.state_ne_idle hp

theorem Upright.advances (h : r.Upright silent d) {s : Signal} (hs : r.step? s = some r')
    (hc : r'.executor.cancelled = false) {t : Terms} (ht : t.maxRelayDepth = d) (horder : r'.InOrder t.order) :
    Advances t silent r (r.deeds s) r' :=
  advances_step h.tidy (h.depth.trans ht.symm) hc h.active hs horder

/-- There is always an order in which a single step settles activations. -/
theorem inOrder_settled (r : Run) : r.InOrder fun _ => r.phase.stage.settled?.getD [] := by
  intro batch hp
  rw [hp]
  exact List.prefix_refl _

theorem Upright.step (h : r.Upright silent d) {s : Signal} (hs : r.step? s = some r') (hc : r'.executor.cancelled = false) :
    r'.Upright silent d ∧ r.essence.Before r'.essence := by
  have hadvances := h.advances hs hc (t := ⟨d, _⟩) rfl (inOrder_settled r')
  obtain ⟨events, hkeeps⟩ := h.keeps
  refine ⟨⟨hadvances.tidy, ⟨_, hkeeps.step hs⟩, ?_⟩, hadvances.leads.before⟩
  rw [executor_step hs, (Executor.replay_spec ..).2.2.2, h.depth]

theorem Upright.before (h : r.Upright silent d) {signals : List Signal} (hf : r.follow signals = some r')
    (hc : r'.executor.cancelled = false) : r'.Upright silent d ∧ r.essence.Before r'.essence := by
  induction signals generalizing r with
  | nil => cases hf; exact ⟨h, .refl _⟩
  | cons s rest ih =>
    obtain ⟨r₁, hs, hf⟩ := Option.bind_eq_some_iff.1 hf
    obtain ⟨hr₁, hbefore⟩ := h.step hs (uncancelled_follow hf hc)
    obtain ⟨hr', hbefore'⟩ := ih hr₁ hf
    exact ⟨hr', hbefore.trans hbefore'⟩

/-- **A run goes on from its essence**, with the events that matter on the way. -/
theorem Upright.follow (h : r.Upright silent d) {signals : List Signal} (hf : r.follow signals = some r')
    (hc : r'.executor.cancelled = false) {t : Terms} (ht : t.maxRelayDepth = d) (horder : SettlesBy t.order r signals) :
    Essence.Leads t r.essence (EventKind.essentials (r.events signals)) r'.essence := by
  induction signals generalizing r with
  | nil => cases hf; exact .refl _
  | cons s rest ih =>
    obtain ⟨r₁, hs, hf⟩ := Option.bind_eq_some_iff.1 hf
    have hc₁ := uncancelled_follow hf hc
    have horder₁ := horder.tail hs
    have hrest := ih (h.step hs hc₁).1 hf horder₁
    have hfirst := (h.advances hs hc₁ ht horder₁.first).leads
    rw [events, hs, Option.elim_some, EventKind.essentials_append, voices, Deed.essentials_voicesAll]
    exact hfirst.trans hrest

/-- **Every run settles its activations in some order.** -/
theorem Upright.exists_order (h : r.Upright silent d) {signals : List Signal} (hf : r.follow signals = some r')
    (hc : r'.executor.cancelled = false) : ∃ order, SettlesBy order r signals := by
  -- The order is read off the states on the way; only that of the last state is not known from the signals before.
  induction signals using List.reverseRecOn generalizing r' with
  | nil => exact ⟨_, settlesBy_nil (inOrder_settled r)⟩
  | append_singleton signals s ih =>
    have hsplit := hf
    rw [follow_append, Option.bind_eq_some_iff] at hsplit
    obtain ⟨r₁, hf₁, hs⟩ := hsplit
    have hs' : r₁.step? s = some r' := by
      obtain ⟨r₂, hs, hr₂⟩ := Option.bind_eq_some_iff.1 hs
      cases hr₂
      exact hs
    obtain ⟨order, horder⟩ := ih hf₁ (uncancelled_step hs' hc)
    -- In the iteration under way, the order is what is settled at the end.
    refine ⟨fun i => if i = r'.iteration then r'.phase.stage.settled?.getD (order i) else order i, ?_⟩
    intro before r₂ hprefix hf₂ batch hp
    obtain ⟨later, hlater⟩ := hprefix
    have hrest : r₂.follow later = some r' := by
      rw [← hlater, follow_append, hf₂] at hf
      exact hf
    have hold : later ≠ [] → batch.settled <+: order r₂.iteration := by
      intro hne
      obtain ⟨init, last, hlast⟩ := List.eq_nil_or_concat later |>.resolve_left hne
      rw [hlast, List.concat_eq_append, ← List.append_assoc] at hlater
      refine horder before r₂ ⟨init, ?_⟩ hf₂ batch hp
      exact (List.append_inj' hlater rfl).1
    dsimp only
    split_ifs with hiteration
    · cases hsettled : r'.phase.stage.settled? with
      | none =>
        refine hold fun hnil => ?_
        rw [hnil] at hrest
        cases hrest
        rw [hp] at hsettled
        cases hsettled
      | some settled' =>
        -- What was settled before is settled still.
        obtain ⟨hr₂, -⟩ := h.before hf₂ (uncancelled_follow hrest hc)
        rcases (hr₂.before hrest hc).2 with hlt | ⟨-, hbefore⟩
        · exact absurd hiteration (ne_of_lt hlt)
        · obtain ⟨settled, hstage, hprefix⟩ := hbefore settled' hsettled
          rw [show r₂.essence.stage = r₂.phase.stage from rfl, hp] at hstage
          cases hstage
          exact hprefix
    · refine hold fun hnil => ?_
      rw [hnil] at hrest
      cases hrest
      exact hiteration rfl

end Upright

/-! ### Runs of one graph -/

section Start

variable {silent : Bool} {x : Executor} {g : Graph} {context : Context} {mode : StartMode} {now : Nat} {r : Run}

theorem start_upright (hg : g.Hosts (Behavior.Tame silent)) (h : start x g context mode now = .ok r) :
    r.Upright silent x.config.maxRelayDepth := by
  obtain ⟨hp, hgraph⟩ := start_eq h
  have hosts : r.graph.Hosts (Behavior.Tame silent) := by
    have hdrawn : ({ g with supply := g.supply.draw.2 } : Graph).Hosts (Behavior.Tame silent) := hg.of_eq rfl rfl
    rw [hgraph]
    exact hdrawn.replay _
  refine ⟨.idle hosts hp rfl, ⟨_, keeps_start h⟩, ?_⟩
  rw [(start_executor h).2.2.2.1]

/-- What matters of a run at its start depends on the graph and the context only. -/
theorem start_essence (h : start x g context mode now = .ok r) :
    r.essence = ⟨context, ({ g with supply := g.supply.draw.2 } : Graph).replay (g.order.map .reset), 0, [], .idle⟩ := by
  obtain ⟨hp, hgraph⟩ := start_eq h
  rw [essence_idle hp rfl, hgraph]
  obtain ⟨y, -, rfl⟩ := Except.map_eq_ok.1 h
  rfl

end Start

/-- What two runs have in common that come to the same end: their outcomes, the numbers of their iterations, the
events of iterations, activations and propagations, and the graphs they leave. -/
structure Agrees (r₀ : Run) (signals : List Signal) (r : Run) (result : ExecutionResult) (r₀' : Run)
    (signals' : List Signal) (r' : Run) (result' : ExecutionResult) : Prop where
  outcome : result.outcome = result'.outcome
  iterations : result.iterations = result'.iterations
  events : EventKind.essentials (r₀.events signals) = EventKind.essentials (r₀'.events signals')
  graph : r.graph = r'.graph

theorem next?_over {r : Run} {result : ExecutionResult} (hp : r.phase = .over result) (t : Terms) : r.essence.next? t = none := by
  rw [essence_eq_of_nil hp rfl]
  rfl

/-- **Runs of one graph come to the same end**, however they are started, paused and resumed, and however their
activations take turns, as long as these are settled in the same order. -/
theorem agrees {x x' : Executor} {g : Graph} {context : Context} {mode mode' : StartMode} {now now' : Nat}
    {r₀ r₀' r r' : Run} {signals signals' : List Signal} {result result' : ExecutionResult} {order : Nat → List NodeId}
    (hg : g.Hosts Behavior.Determined) (h : start x g context mode now = .ok r₀) (h' : start x' g context mode' now' = .ok r₀')
    (hdepth : x'.config.maxRelayDepth = x.config.maxRelayDepth)
    (hf : r₀.follow signals = some r) (hf' : r₀'.follow signals' = some r')
    (hp : r.phase = .over result) (hp' : r'.phase = .over result')
    (hc : r.executor.cancelled = false) (hc' : r'.executor.cancelled = false)
    (horder : SettlesBy order r₀ signals) (horder' : SettlesBy order r₀' signals') :
    Agrees r₀ signals r result r₀' signals' r' result' := by
  have hg' := hg.imp fun _ hb => hb.tame
  -- Both runs go on from the same essence, which leads to one end only.
  have hleads := (start_upright hg' h).follow hf hc (t := ⟨x.config.maxRelayDepth, order⟩) rfl horder
  have hleads' := (start_upright hg' h').follow hf' hc' (t := ⟨x.config.maxRelayDepth, order⟩) hdepth.symm horder'
  obtain ⟨htidy, -⟩ := (start_upright hg' h).before hf hc
  obtain ⟨htidy', -⟩ := (start_upright hg' h').before hf' hc'
  rw [start_essence h] at hleads
  rw [start_essence h'] at hleads'
  obtain ⟨hevents, hessence⟩ := hleads.unique (next?_over hp _) hleads' (next?_over hp' _)
  rw [essence_eq_of_nil hp rfl, essence_eq_of_nil hp' rfl] at hessence
  obtain ⟨-, hgraph, hiteration, -, hstage⟩ := Essence.mk.injEq .. ▸ hessence
  refine ⟨Stage.ended.inj hstage, ?_, hevents, hgraph⟩
  rw [htidy.tidy.reported result hp, htidy'.tidy.reported result' hp', hiteration]

end Run

end Dataflow
