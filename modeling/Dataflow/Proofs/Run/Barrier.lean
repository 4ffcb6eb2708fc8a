import Dataflow.Proofs.Run.Statuses

/-!
# While activations are settled

The activations of an iteration end in any order, and the driver settles one after the other. Nothing else happens to
the graph until all of them are settled.

* `Run.Through` says that signals lead from one state of a run to another, through phases of some kind;
* `Verdict` is the end of an activation with the answer of its node, and `Graph.verdicts` are those among some acts;
* `Graph.Settles` says what some acts and events make of a batch: the verdicts among the acts are what was settled, what
  failed, and what was told of it;
* `Run.activating_step`: a step settles, or everything is settled and the driver passes the barrier;
* `Run.Through.settles`: what a whole run settles, up to any moment before the driver passes the barrier.
-/

namespace Dataflow

/-- Whether the activations of an iteration are under way. -/
def Phase.isActivating : Phase → Bool
  | .activating _ => true
  | _ => false

theorem Phase.isActivating_iff {p : Phase} : p.isActivating = true ↔ ∃ batch, p = .activating batch := by
  cases p <;> simp [isActivating]

/-- The node of an activation that goes on or is settled. -/
def Act.subject? : Act → Option NodeId
  | .remember id _ | .settle id _ => some id
  | _ => none

/-- The end of an activation, and the answer of its node. -/
structure Verdict where
  node : NodeId
  result : Except NodeError Output
  answer : Except NodeError Unit

/-- What an event tells of the end of an activation, apart from how long it took. -/
def EventKind.told? : EventKind → Option (NodeId × Bool × Option String)
  | .nodeCompleted id success error _ => some (id, success, error)
  | _ => none

/-- Whether an event tells that data moved. -/
def EventKind.isTransfer : EventKind → Bool
  | .dataPropagated .. => true
  | _ => false

namespace Verdict

/-- What is told of a verdict. -/
def told (v : Verdict) : NodeId × Bool × Option String :=
  match v.answer with
  | .ok () => (v.node, true, none)
  | .error e => (v.node, false, some e.message)

end Verdict

namespace Graph

/-- The verdict that an act comes to. -/
def verdict? (g : Graph) : Act → Option Verdict
  | .settle id result => some ⟨id, result, g.completion id result⟩
  | _ => none

/-- The verdicts that some acts come to, in this order. -/
def verdicts (g : Graph) : List Act → List Verdict
  | [] => []
  | act :: rest => (g.verdict? act).toList ++ (g.enact act).verdicts rest

/-- The line of a verdict, if the activation has failed. -/
def line? (g : Graph) (v : Verdict) : Option String :=
  match v.answer with
  | .ok () => none
  | .error e => some (g.failureLine v.node e.message)

/-- The lines of the activations that have failed. -/
def lines (g : Graph) (verdicts : List Verdict) : List String :=
  verdicts.filterMap g.line?

variable {g : Graph}

theorem verdicts_append (g : Graph) (acts acts' : List Act) :
    g.verdicts (acts ++ acts') = g.verdicts acts ++ (g.replay acts).verdicts acts' := by
  induction acts generalizing g with
  | nil => rfl
  | cons act acts ih => rw [List.cons_append, verdicts, ih, verdicts, List.append_assoc, replay_cons]

theorem verdicts_memories (g : Graph) (node : NodeId) (memories : List Memory) :
    g.verdicts (memories.map (.remember node)) = [] := by
  induction memories generalizing g with
  | nil => rfl
  | cons memory rest ih => exact ih _

theorem lines_append (g : Graph) (verdicts verdicts' : List Verdict) :
    g.lines (verdicts ++ verdicts') = g.lines verdicts ++ g.lines verdicts' :=
  List.filterMap_append

theorem lines_replay (hg : g.Named) (acts : List Act) : (g.replay acts).lines = g.lines := by
  funext verdicts
  unfold lines line? failureLine
  rw [labelOf_replay hg]

/-! ### What is settled -/

/-- What has become of the nodes of `g` whose activations were under way: some are settled, and some are still awaited. -/
structure Bears (g : Graph) (verdicts : List Verdict) (pending : List NodeId) (g' : Graph) : Prop where
  awaited : ∀ id ∈ pending, ∀ n, g.node? id = some n → ∃ memory, g'.node? id = some { n with memory }
  settled : ∀ v ∈ verdicts, ∀ n, g.node? v.node = some n → ∃ memory s,
    v.answer = (({ n with memory } : Node).complete v.result s).1 ∧
      g'.node? v.node = some (({ n with memory } : Node).complete v.result s).2.1
  other : ∀ id, id ∉ pending → id ∉ verdicts.map Verdict.node → g'.node? id = g.node? id

theorem Bears.refl (g : Graph) (pending : List NodeId) : g.Bears [] pending g where
  awaited _ _ n hn := ⟨n.memory, hn⟩
  settled _ hv := absurd hv List.not_mem_nil
  other _ _ _ := rfl

theorem Bears.trans {g' g'' : Graph} {verdicts verdicts' : List Verdict} {pending pending' : List NodeId}
    (h : g.Bears verdicts pending g') (h' : g'.Bears verdicts' pending' g'')
    (hparts : (verdicts'.map Verdict.node ++ pending').Perm pending) (hn : (verdicts.map Verdict.node ++ pending).Nodup) :
    g.Bears (verdicts ++ verdicts') pending' g'' := by
  have hsettled : ∀ v ∈ verdicts', v.node ∈ pending := fun v hv =>
    hparts.mem_iff.1 (List.mem_append_left _ (List.mem_map_of_mem hv))
  have hpending : ∀ id ∈ pending', id ∈ pending := fun id hid => hparts.mem_iff.1 (List.mem_append_right _ hid)
  refine ⟨fun id hid n hnode => ?_, fun v hv n hnode => ?_, fun id hid hsettled' => ?_⟩
  · obtain ⟨memory, hnode'⟩ := h.awaited id (hpending id hid) n hnode
    obtain ⟨memory', hlater⟩ := h'.awaited id hid _ hnode'
    exact ⟨memory', hlater⟩
  · rcases List.mem_append.1 hv with hv | hv
    · -- What is settled already is left alone.
      have hnot : v.node ∉ pending :=
        (List.nodup_append'.1 hn).2.2 (List.mem_map_of_mem hv)
      have hsame := h'.other v.node (fun hid => hnot (hpending _ hid)) fun hmem => by
        obtain ⟨v', hv', he⟩ := List.mem_map.1 hmem
        exact hnot (he ▸ hsettled v' hv')
      rw [hsame]
      exact h.settled v hv n hnode
    · obtain ⟨memory, hnode'⟩ := h.awaited v.node (hsettled v hv) n hnode
      obtain ⟨memory', s, hanswer, hlater⟩ := h'.settled v hv _ hnode'
      exact ⟨memory', s, hanswer, hlater⟩
  · rw [List.map_append, List.mem_append, not_or] at hsettled'
    have hnot : id ∉ pending := fun hmem =>
      (List.mem_append.1 (hparts.mem_iff.2 hmem)).elim hsettled'.2 hid
    rw [h'.other id hid hsettled'.2, h.other id hnot hsettled'.1]

theorem bears_memories (hg : g.Named) {node : NodeId} (memories : List Memory) {pending : List NodeId}
    (hnode : memories ≠ [] → node ∈ pending) : g.Bears [] pending (g.replay (memories.map (.remember node))) := by
  induction memories generalizing g with
  | nil => exact .refl g pending
  | cons memory rest ih =>
    have hmem : node ∈ pending := hnode (List.cons_ne_nil _ _)
    have hother : ∀ id, id ≠ node → (g.enact (.remember node memory)).node? id = g.node? id := by
      intro id hne
      cases hn : g.node? node with
      | none => rw [enact, modifyNode_of_none hn]
      | some n =>
        rw [enact, modifyNode_of_some hn, node?_evolve, if_neg]
        exact fun e => hne (e.symm.trans (hg node n hn))
    have hfirst : g.Bears [] pending (g.enact (.remember node memory)) := by
      refine ⟨fun id _ n hn => ?_, fun _ hv => absurd hv List.not_mem_nil, fun id hid _ => ?_⟩
      · by_cases he : id = node
        · subst he
          exact ⟨memory, by rw [enact, modifyNode_of_some hn, node?_evolve, if_pos (hg id n hn)]⟩
        · exact ⟨n.memory, by rw [hother id he, hn]⟩
      · exact hother id fun e => hid (e ▸ hmem)
    refine ⟨fun id hid n hn => ?_, fun _ hv => absurd hv List.not_mem_nil, fun id hid hv => ?_⟩
    · obtain ⟨m, hn'⟩ := hfirst.awaited id hid n hn
      obtain ⟨m', hlater⟩ := (ih (hg.enact _) fun _ => hmem).awaited id hid _ hn'
      exact ⟨m', hlater⟩
    · exact ((ih (hg.enact _) fun _ => hmem).other id hid hv).trans (hfirst.other id hid hv)

theorem bears_settle (hg : g.Named) (id : NodeId) (result : Except NodeError Output) {pending : List NodeId}
    (hid : id ∉ pending) : g.Bears [⟨id, result, g.completion id result⟩] pending (g.enact (.settle id result)) := by
  have hother : ∀ other, other ≠ id → (g.enact (.settle id result)).node? other = g.node? other := by
    intro other hne
    simp only [enact, settle]
    cases hn : g.node? id with
    | none => rfl
    | some n =>
      rw [node?_reindex, node?_evolve, (n.evolves_complete result g.supply).id, if_neg]
      exact fun e => hne (e.symm.trans (hg id n hn))
  refine ⟨fun other hmem n hn => ⟨n.memory, ?_⟩, fun v hv n hn => ?_, fun other _ hv => hother other ?_⟩
  · rw [hother other fun e => hid (e ▸ hmem), hn]
  · obtain rfl := List.mem_singleton.1 hv
    refine ⟨n.memory, g.supply, by simp only [completion, hn], ?_⟩
    simp only at hn
    simp only [enact, settle, hn]
    rw [node?_reindex, node?_evolve, (n.evolves_complete result g.supply).id, if_pos (hg id n hn)]
  · simpa using hv

/-- What some acts and events make of the activations of an iteration that are under way. -/
structure Settles (g : Graph) (batch : Batch) (acts : List Act) (events : List EventKind) (batch' : Batch) : Prop where
  ready : batch'.ready = batch.ready
  settled : batch'.settled = batch.settled ++ (g.verdicts acts).map Verdict.node
  failures : batch'.failures = batch.failures ++ g.lines (g.verdicts acts)
  pending : batch.pending.Nodup → ((g.verdicts acts).map Verdict.node ++ batch'.pending).Perm batch.pending
  bears : batch.pending.Nodup → g.Bears (g.verdicts acts) batch'.pending (g.replay acts)
  subjects : ∀ act ∈ acts, ∃ id ∈ batch.pending, act.subject? = some id
  told : (∀ id ∈ batch.pending, (g.node? id).isSome) → events.filterMap EventKind.told? = (g.verdicts acts).map Verdict.told
  still : ∀ kind ∈ events, kind.isTransfer = false

theorem Settles.refl (g : Graph) (batch : Batch) : g.Settles batch [] [] batch where
  ready := rfl
  settled := (List.append_nil _).symm
  failures := (List.append_nil _).symm
  pending _ := .refl _
  bears _ := .refl g _
  subjects _ h := absurd h List.not_mem_nil
  told _ := rfl
  still _ h := absurd h List.not_mem_nil

/-- An activation that goes on settles nothing. -/
theorem Settles.of_turned (hg : g.Named) {batch batch' : Batch} (ht : batch.Turned batch') (node : NodeId)
    (memories : List Memory) {events : List EventKind} (hnode : memories ≠ [] → node ∈ batch.pending)
    (hevents : ∀ kind ∈ events, kind.told? = none ∧ kind.isTransfer = false) :
    g.Settles batch (memories.map (.remember node)) events batch' where
  ready := ht.ready
  settled := by rw [verdicts_memories, ht.settled]; exact (List.append_nil _).symm
  failures := by rw [verdicts_memories, ht.failures]; exact (List.append_nil _).symm
  pending hn := by rw [verdicts_memories]; exact ht.pending hn
  bears hn := by
    rw [verdicts_memories]
    exact bears_memories hg memories fun hne => (ht.pending hn).mem_iff.2 (hnode hne)
  subjects act hact := by
    obtain ⟨memory, hmemory, rfl⟩ := List.mem_map.1 hact
    exact ⟨node, hnode (List.ne_nil_of_mem hmemory), rfl⟩
  told _ := by
    rw [verdicts_memories, List.map_nil, List.filterMap_eq_nil_iff]
    exact fun kind hkind => (hevents kind hkind).1
  still kind hkind := (hevents kind hkind).2

theorem Settles.trans {batch batch' batch'' : Batch} {acts acts' : List Act} {events events' : List EventKind}
    (hg : g.Named) (hn : batch.pending.Nodup) (h : g.Settles batch acts events batch')
    (h' : (g.replay acts).Settles batch' acts' events' batch'') :
    g.Settles batch (acts ++ acts') (events ++ events') batch'' := by
  have hperm := h.pending hn
  have hn' : batch'.pending.Nodup := (List.nodup_append'.1 (hperm.nodup_iff.2 hn)).2.1
  have hsub : ∀ id ∈ batch'.pending, id ∈ batch.pending :=
    fun id hid => hperm.mem_iff.1 (List.mem_append_right _ hid)
  refine ⟨h'.ready.trans h.ready, ?_, ?_, fun _ => ?_, fun _ => ?_, fun act hact => ?_, fun hpresent => ?_,
    fun kind hkind => ?_⟩
  · rw [h'.settled, h.settled, verdicts_append, List.map_append, List.append_assoc]
  · rw [h'.failures, h.failures, verdicts_append, lines_replay hg, lines_append, List.append_assoc]
  · rw [verdicts_append, List.map_append, List.append_assoc]
    exact ((h'.pending hn').append_left _).trans hperm
  · rw [verdicts_append, replay_append]
    exact (h.bears hn).trans (h'.bears hn') (h'.pending hn') (hperm.nodup_iff.2 hn)
  · rcases List.mem_append.1 hact with hact | hact
    · exact h.subjects act hact
    · obtain ⟨id, hid, hsubject⟩ := h'.subjects act hact
      exact ⟨id, hsub id hid, hsubject⟩
  · have hpresent' : ∀ id ∈ batch'.pending, ((g.replay acts).node? id).isSome :=
      fun id hid => isSome_node?_replay acts (hpresent id (hsub id hid))
    rw [List.filterMap_append, h.told hpresent, h'.told hpresent', verdicts_append, List.map_append]
  · exact (List.mem_append.1 hkind).elim (h.still kind) (h'.still kind)

end Graph

namespace Run

/-! ### Runs through phases of some kind -/

/-- Signals lead from one state of a run to another, and each of them comes in a phase of some kind. -/
inductive Through (P : Phase → Bool) : Run → List Signal → Run → Prop
  | done (r : Run) : Through P r [] r
  | step {r r' r'' : Run} {s : Signal} {rest : List Signal} (hp : P r.phase = true) (hs : r.step? s = some r')
      (h : Through P r' rest r'') : Through P r (s :: rest) r''

section Through

variable {P : Phase → Bool} {r r' : Run} {signals : List Signal}

theorem Through.follow (h : r.Through P signals r') : r.follow signals = some r' := by
  induction h with
  | done => rfl
  | step _ hs _ ih => rw [Run.follow, hs, Option.bind_some, ih]

/-- The graph after some signals. -/
theorem graph_follow (hg : r.graph.Identified) (h : r.follow signals = some r') :
    r'.graph = r.graph.replay (r.trail signals) :=
  ((Leads.refl r).follow h).graph hg

end Through

/-! ### What a step settles -/

theorem labelOf_eq (r : Run) (id : NodeId) : r.labelOf id = r.graph.labelOf id := by
  unfold labelOf Graph.labelOf
  cases r.graph.node? id <;> rfl

/-- A script publishes what its node says about itself. -/
theorem mem_performed {node : NodeId} {script : Script} {x : Executor} {kind : EventKind}
    (h : .publish kind ∈ performed node script x) : ∃ event, kind = .nodeEvent node event := by
  induction script generalizing x with
  | finish | panic | sleep => exact absurd h List.not_mem_nil
  | emit event rest ih =>
    rcases List.mem_cons.1 h with h | h
    · cases h
      exact ⟨event, rfl⟩
    · exact ih h
  | control c rest ih => exact ih _ _ ((List.mem_cons.1 h).resolve_left (by simp))
  | log entry rest ih => exact ih h
  | remember memory rest ih => exact ih h

theorem told?_terminalEvent (result : ExecutionResult) :
    (Executor.terminalEvent result).told? = none ∧ (Executor.terminalEvent result).isTransfer = false := by
  unfold Executor.terminalEvent
  cases result.outcome <;> exact ⟨rfl, rfl⟩

/-- Deeds that publish nothing of the kind tell of no activation that has ended, and of no transfer. -/
theorem voices_untold {deeds : List Deed} {s : ExecutionState}
    (h : ∀ kind, .publish kind ∈ deeds → kind.told? = none ∧ kind.isTransfer = false) :
    ∀ kind ∈ Deed.voicesAll s deeds, kind.told? = none ∧ kind.isTransfer = false := by
  intro kind hkind
  rcases Deed.mem_voicesAll hkind with hmem | hchange | ⟨result, -, rfl⟩
  · exact h kind hmem
  · cases kind <;> first | exact ⟨rfl, rfl⟩ | cases hchange
  · exact told?_terminalEvent result

section Activating

variable {r r' : Run} {s : Signal} {batch : Batch}

/-- The phase after an activation that has ended is settled. -/
theorem settle_phase (hg : r.graph.Named) (batch : Batch) (f : Finished) (rest : List Finished) :
    (r.settle batch f rest).phase = .activating { batch with
      finished := rest
      settled := batch.settled ++ [f.node]
      failures := batch.failures ++ r.graph.lines [⟨f.node, f.result, r.graph.completion f.node f.result⟩] } := by
  have hfst := r.complete_fst f.node f.startedAt f.result
  have hgraph := r.complete_graph f.node f.startedAt f.result
  have hlabel : (r.graph.settle f.node f.result).labelOf = r.graph.labelOf :=
    Graph.labelOf_enact hg (.settle f.node f.result)
  unfold Run.settle
  rcases hcomplete : r.complete f.node f.startedAt f.result with ⟨completed, r₁⟩
  rw [hcomplete] at hfst hgraph
  dsimp only at hfst hgraph ⊢
  rw [← hfst]
  cases completed with
  | ok => simp [Graph.lines, Graph.line?]
  | error e =>
    have hline : r₁.failureLine f.node e.message = r.graph.failureLine f.node e.message := by
      unfold failureLine Graph.failureLine
      rw [labelOf_eq, hgraph, hlabel]
    simp only [hline]
    rfl

/-- The phase after the barrier. -/
theorem passBarrier_phase (r : Run) (batch : Batch) : (r.passBarrier batch).phase =
    if batch.failures = [] then .propagating ⟨[], batch.ready⟩ else .ending (.failed ("; ".intercalate batch.failures)) := by
  unfold passBarrier
  cases hfail : batch.failures with
  | nil => rfl
  | cons line rest => rfl

theorem isActivating_passBarrier (r : Run) (batch : Batch) : (r.passBarrier batch).phase.isActivating = false := by
  rw [passBarrier_phase]
  split_ifs <;> rfl

/-- An activation that has ended is settled. -/
theorem settles_settle (hg : r.graph.Named) (hp : r.phase = .activating batch) (hc : r.executor.cancelled = false)
    {f : Finished} {rest : List Finished} (hf : batch.finished = f :: rest) :
    r.graph.Settles batch (r.acts .drive) (r.voices .drive) { batch with
      finished := rest
      settled := batch.settled ++ [f.node]
      failures := batch.failures ++ r.graph.lines [⟨f.node, f.result, r.graph.completion f.node f.result⟩] } := by
  have hacts : r.acts .drive = [.settle f.node f.result] := by
    simp only [acts, driving, hp, hc, Bool.false_eq_true, if_false, hf]
  have hvoices : r.voices .drive = completed r.graph f.node f.result (r.now - f.startedAt) := by
    simp only [voices, deeds, driven, hp, hc, Bool.false_eq_true, if_false, hf, Deed.voicesAll_publish]
  have hpending := Batch.pending_settle hf
  have hmem : f.node ∈ batch.pending := hpending.mem_iff.2 List.mem_cons_self
  rw [hacts, hvoices]
  refine ⟨rfl, rfl, rfl, fun _ => hpending.symm, fun hn => ?_, ?_, fun hpresent => ?_, fun kind hkind => ?_⟩
  · exact Graph.bears_settle hg f.node f.result (List.nodup_cons.1 (hpending.nodup_iff.1 hn)).1
  · exact List.forall_mem_singleton.2 ⟨f.node, hmem, rfl⟩
  · obtain ⟨n, hn⟩ := Option.isSome_iff_exists.1 (hpresent f.node hmem)
    have hverdicts : r.graph.verdicts [.settle f.node f.result] =
        [⟨f.node, f.result, r.graph.completion f.node f.result⟩] := rfl
    rw [hverdicts]
    simp only [completed, Graph.completion, hn, List.map_cons, List.map_nil, Verdict.told]
    cases (n.complete f.result r.graph.supply).1 <;> rfl
  · unfold completed at hkind
    split at hkind
    · exact absurd hkind List.not_mem_nil
    · split at hkind <;> rw [List.mem_singleton.1 hkind] <;> rfl

/-- **A step settles, or everything is settled** and the driver passes the barrier. -/
theorem activating_step (hg : r.graph.Named) (hp : r.phase = .activating batch) (hc : r.executor.cancelled = false)
    (h : r.step? s = some r') :
    (∃ batch', r'.phase = .activating batch' ∧ r.graph.Settles batch (r.acts s) (r.voices s) batch') ∨
      s = .drive ∧ batch.pending = [] ∧ r' = r.passBarrier batch := by
  cases s with
  | drive =>
    simp only [step?, drive?, hp, whileActivating?, hc, Bool.false_eq_true, if_false] at h
    cases hf : batch.finished with
    | cons f rest =>
      simp only [hf, Option.some.injEq] at h
      subst h
      exact Or.inl ⟨_, settle_phase hg batch f rest, settles_settle hg hp hc hf⟩
    | nil =>
      simp only [hf] at h
      split_ifs at h with hdone
      obtain ⟨hrun, hasleep⟩ := Bool.and_eq_true_iff.1 hdone
      refine Or.inr ⟨rfl, ?_, (Option.some.inj h).symm⟩
      simp [Batch.pending, hf, List.isEmpty_iff.1 hrun, List.isEmpty_iff.1 hasleep]
  | run node =>
    obtain ⟨b, task, batch', hb, htask, rfl, ht⟩ := runNode_turned h
    cases hp.symm.trans hb
    obtain ⟨memories, hacts⟩ := performing_eq task.node task.script r
    have hvoices : r.voices (.run node) = Deed.voicesAll r.executor.state (performed task.node task.script r.executor) := by
      simp only [voices, deeds, hp, htask]
    refine Or.inl ⟨batch', rfl, ?_⟩
    rw [hvoices, show r.acts (.run node) = performing task.node task.script r by simp only [acts, hp, htask], hacts]
    refine .of_turned hg ht task.node memories (fun _ => ?_) (voices_untold fun kind hkind => ?_)
    · exact List.mem_append_left _ (List.mem_append_left _ (List.mem_map_of_mem (List.mem_of_find?_eq_some htask)))
    · obtain ⟨event, rfl⟩ := mem_performed hkind
      exact ⟨rfl, rfl⟩
  | wake node =>
    obtain ⟨b, batch', hb, rfl, ht⟩ := wakeNode_turned h
    cases hp.symm.trans hb
    exact Or.inl ⟨batch', rfl, .of_turned hg ht node [] (absurd rfl) fun _ h => absurd h List.not_mem_nil⟩
  | control c =>
    cases h
    refine Or.inl ⟨batch, hp, .of_turned hg ⟨rfl, rfl, rfl, fun _ => .refl _⟩ .nil [] (absurd rfl) ?_⟩
    exact voices_untold fun kind hkind => by cases List.mem_singleton.1 hkind
  | pass ms =>
    cases h
    exact Or.inl ⟨batch, hp, .refl _ _⟩

/-- What is settled up to some moment before the driver passes the barrier. -/
theorem Through.settles {signals : List Signal} {batch' : Batch} (hg : r.graph.Named) (hp : r.phase = .activating batch)
    (hn : batch.pending.Nodup) (h : r.Through Phase.isActivating signals r') (hc : r'.executor.cancelled = false)
    (hp' : r'.phase = .activating batch') :
    r.graph.Settles batch (r.trail signals) (r.events signals) batch' := by
  induction h generalizing batch with
  | done r =>
    cases hp.symm.trans hp'
    exact .refl _ _
  | @step r r₁ r' s rest _ hs h ih =>
    have hc₁ : r₁.executor.cancelled = false := uncancelled_follow h.follow hc
    rcases activating_step hg hp (uncancelled_step hs hc₁) hs with ⟨batch₁, hp₁, hsettles⟩ | ⟨-, -, rfl⟩
    · have hgraph := graph_step hg hs
      have hg₁ : r₁.graph.Named := hgraph ▸ hg.replay _
      have hn₁ : batch₁.pending.Nodup :=
        (List.nodup_append'.1 ((hsettles.pending hn).nodup_iff.2 hn)).2.1
      have hrest := ih hg₁ hp₁ hn₁ hc hp'
      rw [hgraph] at hrest
      have htrail : r.trail (s :: rest) = r.acts s ++ r₁.trail rest := by rw [trail, hs]; rfl
      have hevents : r.events (s :: rest) = r.voices s ++ r₁.events rest := by rw [events, hs]; rfl
      rw [htrail, hevents]
      exact hsettles.trans hg hn hrest
    · -- After the barrier, activations are not under way any more.
      have hleft := r.isActivating_passBarrier batch
      cases h with
      | done => rw [hp'] at hleft; cases hleft
      | step hphase => exact absurd (hleft.symm.trans hphase) Bool.false_ne_true

/-! ### Past the barrier -/

theorem step_pass (hp : r.phase = .activating batch) (hc : r.executor.cancelled = false) (hpending : batch.pending = []) :
    r.step? .drive = some (r.passBarrier batch) ∧
      r.acts .drive = (if batch.failures = [] then batch.ready.map .clear else []) ∧ r.voices .drive = [] := by
  obtain ⟨hrest, hfinished⟩ := List.append_eq_nil_iff.1 hpending
  obtain ⟨hrun, hasleep⟩ := List.append_eq_nil_iff.1 hrest
  rw [List.map_eq_nil_iff] at hrun hasleep hfinished
  refine ⟨?_, ?_, ?_⟩
  · simp [step?, drive?, hp, whileActivating?, hc, hfinished, hrun, hasleep]
  · simp [acts, driving, hp, hc, hfinished, hrun, hasleep]
  · simp [voices, deeds, driven, hp, hc, hfinished, Deed.voicesAll]

/-- A run that is not cancelled is still settling, or it has passed the barrier. -/
theorem follow_activating {signals : List Signal} (hg : r.graph.Named) (hp : r.phase = .activating batch)
    (h : r.follow signals = some r') (hc : r'.executor.cancelled = false) :
    r.Through Phase.isActivating signals r' ∧ r'.phase.isActivating = true ∨
      ∃ before after r₁ batch₁, signals = before ++ .drive :: after ∧ r.Through Phase.isActivating before r₁ ∧
        r₁.phase = .activating batch₁ ∧ batch₁.pending = [] ∧ r₁.executor.cancelled = false ∧
        (r₁.passBarrier batch₁).follow after = some r' := by
  induction signals generalizing r batch with
  | nil =>
    cases h
    exact Or.inl ⟨.done _, by rw [hp]; rfl⟩
  | cons s rest ih =>
    obtain ⟨r₁, hs, h⟩ := Option.bind_eq_some_iff.1 h
    have hunder : r.phase.isActivating = true := by rw [hp]; rfl
    have hc₀ := uncancelled_step hs (uncancelled_follow h hc)
    rcases activating_step hg hp hc₀ hs with ⟨batch₁, hp₁, -⟩ | ⟨rfl, hpending, rfl⟩
    · have hg₁ : r₁.graph.Named := graph_step hg hs ▸ hg.replay _
      rcases ih hg₁ hp₁ h with ⟨hthrough, hlast⟩ | ⟨before, after, r₂, batch₂, rfl, hthrough, hrest⟩
      · exact Or.inl ⟨.step hunder hs hthrough, hlast⟩
      · exact Or.inr ⟨s :: before, after, r₂, batch₂, rfl, .step hunder hs hthrough, hrest⟩
    · exact Or.inr ⟨[], rest, r, batch, rfl, .done r, hp, hpending, hc₀, h⟩

end Activating

/-- While activations are under way, no other iteration begins. -/
theorem Through.iteration {r r' : Run} {signals : List Signal} (h : r.Through Phase.isActivating signals r') :
    r'.iteration = r.iteration := by
  induction h with
  | done => rfl
  | step hp hs _ ih =>
    refine ih.trans (steady_step (fun hboundary => ?_) hs).iteration
    rw [hboundary] at hp
    cases hp

/-- The verdicts on the activations of the iteration under way. -/
def verdicts (r : Run) : List Signal → List Verdict
  | [] => []
  | s :: rest =>
    if r.phase.isActivating then
      r.graph.verdicts (r.acts s) ++ (r.step? s).elim [] fun r => r.verdicts rest
    else []

theorem Through.verdicts {r r' : Run} {signals : List Signal} (hg : r.graph.Named)
    (h : r.Through Phase.isActivating signals r') (more : List Signal) :
    r.verdicts (signals ++ more) = r.graph.verdicts (r.trail signals) ++ r'.verdicts more := by
  induction h with
  | done => rfl
  | @step r r₁ r' s rest hp hs _ ih =>
    have hgraph := graph_step hg hs
    rw [List.cons_append, Run.verdicts, if_pos hp, hs, Option.elim_some, ih (hgraph ▸ hg.replay _), trail, hs,
      Option.elim_some, Graph.verdicts_append, hgraph, List.append_assoc]

/-- Past the barrier there are no more of them. -/
theorem verdicts_pass {r : Run} {batch : Batch} (hp : r.phase = .activating batch) (hc : r.executor.cancelled = false)
    (hpending : batch.pending = []) (more : List Signal) : r.verdicts (.drive :: more) = [] := by
  obtain ⟨hs, hacts, -⟩ := step_pass hp hc hpending
  have hclears : ∀ (g : Graph) (ids : List NodeId), g.verdicts (ids.map .clear) = [] := by
    intro g ids
    induction ids generalizing g with
    | nil => rfl
    | cons id rest ih => exact ih _
  have hsettled : r.graph.verdicts (r.acts .drive) = [] := by
    rw [hacts]
    split_ifs
    · exact hclears ..
    · rfl
  have hrest : (r.passBarrier batch).verdicts more = [] := by
    cases more with
    | nil => rfl
    | cons s rest => rw [verdicts, isActivating_passBarrier]; rfl
  rw [verdicts, if_pos (by rw [hp]; rfl), hs, Option.elim_some, hsettled, hrest]
  rfl

end Run

end Dataflow
