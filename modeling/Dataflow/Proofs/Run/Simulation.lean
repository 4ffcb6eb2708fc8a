import Dataflow.Proofs.Run.Advances

/-!
# Runs go on from essence to essence

* `Run.advances_turn`: an activation that goes on does not change what matters of a run;
* `Run.advances_settle`, `Run.advances_pass` and `Run.advances_fail`: an iteration is settled activation by activation;
* `Run.advances_propagate`, `Run.advances_relay` and those around them: outputs move, and relays are activated;
* `Run.advances_step`: every step goes on from what matters of a run, as long as the run is not cancelled and its
  activations are settled in the given order.
-/

namespace Dataflow

/-! ### Activations taking turns -/

/-- What is left of the activations when one of them has had its turn: it is at its end, or is pledged to the rest of its
script. The memory of its node changes on the way. -/
inductive Pledge.Turn (silent : Bool) (p : Pledge) (others : List Pledge) (memory : Memory) : Memory → List Pledge → Prop
  | ended {left : List Pledge} (hleft : left.Perm others) : Turn silent p others memory (p.script.memory memory) left
  | asleep {left : List Pledge} {memory' : Memory} {rest : Script} (hleft : left.Perm (⟨p.node, p.index, rest⟩ :: others))
      (htame : rest.Tame silent memory') (hmemory : rest.memory memory' = p.script.memory memory) :
      Turn silent p others memory memory' left

section Turn

variable {silent : Bool} {g : Graph} {p : Pledge} {others pledges left : List Pledge} {n : Node} {m : Memory}

/-- With all pledges fulfilled, a turn makes no difference to the graph. -/
theorem Pledge.Turn.fulfilled {P : Behavior → Prop} (h : p.Turn silent others n.memory m left) (hg : g.Hosts P)
    (hn : g.node? p.node = some n) (hp : pledges.Perm (p :: others)) (hd : (pledges.map Pledge.node).Nodup)
    (hl : (left.map Pledge.node).Nodup) :
    (g.setNode { n with memory := m }).fulfilled left = g.fulfilled pledges := by
  have hothers : pledgeOf? p.node others = none :=
    pledgeOf?_eq_none.2 (List.nodup_cons.1 ((hp.map Pledge.node).nodup hd)).1
  have hbefore : ∀ id, pledgeOf? id pledges = if p.node = id then some p else pledgeOf? id others := fun id =>
    pledgeOf?_perm hp hd id
  have hnode : Graph.fulfil pledges p.node n = { n with memory := p.script.memory n.memory } :=
    Graph.fulfil_of_some (by rw [hbefore, if_pos rfl])
  have hid : n.id = p.node := hg.named hn
  refine Graph.fulfilled_setNode_eq hg hid hn ?_ fun id hne => ?_
  · rw [hnode]
    cases h with
    | ended hleft => rw [Graph.fulfil_of_none (by rw [pledgeOf?_perm hleft hl, hothers])]
    | asleep hleft _ hmemory =>
      rw [Graph.fulfil_of_some (by rw [pledgeOf?_perm hleft hl, pledgeOf?_cons, if_pos rfl]), ← hmemory]
  · rw [hbefore, if_neg (Ne.symm hne)]
    cases h with
    | ended hleft => exact pledgeOf?_perm hleft hl id
    | asleep hleft => rw [pledgeOf?_perm hleft hl id, pledgeOf?_cons, if_neg (Ne.symm hne)]

/-- After a turn, each activation that is left still has one ending only. -/
theorem Pledge.Turn.pledged {P : Behavior → Prop} (h : p.Turn silent others n.memory m left) (hg : g.Hosts P)
    (hn : g.node? p.node = some n) (hd : p.node ∉ others.map Pledge.node)
    (ho : ∀ q ∈ others, ∃ n, g.node? q.node = some n ∧ q.script.Tame silent n.memory) :
    ∀ q ∈ left, ∃ k, (g.setNode { n with memory := m }).node? q.node = some k ∧ q.script.Tame silent k.memory := by
  have hset := hg.node?_remember hn m
  have hrest : ∀ q ∈ others, ∃ k, (g.setNode { n with memory := m }).node? q.node = some k ∧
      q.script.Tame silent k.memory := by
    intro q hq
    have hne : p.node ≠ q.node := fun e => hd (e ▸ List.mem_map_of_mem hq)
    rw [hset, if_neg hne]
    exact ho q hq
  intro q hq
  cases h with
  | ended hleft => exact hrest q (hleft.mem_iff.1 hq)
  | asleep hleft htame =>
    rcases List.mem_cons.1 (hleft.mem_iff.1 hq) with rfl | hq
    · exact ⟨{ n with memory := m }, by rw [hset, if_pos rfl], htame⟩
    · exact hrest q hq

end Turn

namespace Run

section Advance

variable {t : Terms} {silent : Bool} {r : Run}

/-- An activation goes on, while the others do not. -/
theorem advances_turn {batch batch' : Batch} {p : Pledge} {others : List Pledge} {n : Node} {m : Memory} {r' : Run}
    {deeds : List Deed} (h : r.Tidy silent) (hp : r.phase = .activating batch) (hp' : r'.phase = .activating batch')
    (hcontext : r'.context = r.context) (hiteration : r'.iteration = r.iteration)
    (hfired : r'.firedSources = r.firedSources) (hgraph : r'.graph = r.graph.setNode { n with memory := m })
    (hready : batch'.ready = batch.ready) (hsettled : batch'.settled = batch.settled)
    (hfailures : batch'.failures = batch.failures) (hdeeds : Deed.essentials deeds = [])
    (hn : r.graph.node? p.node = some n) (hpledges : batch.pledges.Perm (p :: others))
    (hresults : batch'.results.Perm batch.results) (hturn : p.Turn silent others n.memory m batch'.pledges) :
    Advances t silent r deeds r' := by
  have hproper := h.apart batch hp
  have hproper' : Table.Proper batch'.results := (hresults.map Prod.fst).nodup_iff.2 hproper
  have hnodup := (hpledges.map Pledge.node).nodup (Batch.nodup_pledges hproper)
  refine ⟨?_, ?_, fun b hb => ?_, ?_, fun result hresult => ?_⟩
  · have hfulfilled := hturn.fulfilled h.hosts hn hpledges (Batch.nodup_pledges hproper) (Batch.nodup_pledges hproper')
    have hfind : (fun id => Table.find? id batch'.results) = fun id => Table.find? id batch.results :=
      funext fun id => Table.find?_perm hresults hproper' id
    rw [hdeeds]
    refine .of_eq ?_
    rw [essence_eq hp, essence_eq hp', hcontext, hgraph, hiteration, hfired]
    simp only [Phase.pledges, Phase.stage, hfulfilled, hready, hsettled, hfailures, hfind]
  · rw [hgraph]
    exact h.hosts.remember hn m
  · cases hp'.symm.trans hb
    exact hproper'
  · rw [hp', hgraph]
    refine hturn.pledged h.hosts hn (List.nodup_cons.1 hnodup).1 fun q hq => h.pledged q ?_
    rw [hp]
    exact hpledges.mem_iff.2 (List.mem_cons_of_mem _ hq)
  · cases hp'.symm.trans hresult

/-- An activation goes on up to its next wait or its end. -/
theorem advances_run {r' : Run} {node : NodeId} (h : r.Tidy silent) (hc : r'.executor.cancelled = false)
    (hs : r.runNode? node = some r') :
    Advances t silent r (r.deeds (.run node)) r' := by
  obtain ⟨batch, task, hp, htask, rfl⟩ := runNode?_eq_some.1 hs
  simp only [deeds, hp, htask]
  obtain ⟨-, hperm⟩ := perm_of_find? Task.node (Batch.nodup_runnable (h.apart batch hp)) htask
  have hpledges : batch.pledges.Perm (task.pledge :: batch.others node) :=
    (hperm.symm.append_right (batch.asleep.map Sleeper.task)).map Task.pledge
  obtain ⟨n, hn, hd⟩ := h.pledged task.pledge (by rw [hp]; exact hpledges.mem_iff.2 List.mem_cons_self)
  obtain ⟨m, hgraph, hstop⟩ := perform_determined hn (h.hosts.named hn) hd.determined hc
  have heq := perform_eq task.node task.script r
  -- At its end, an activation has the result that it was pledged to.
  have hended : ∀ result, task.pledge.result = result →
      (Batch.results { batch with
        runnable := batch.runnable.filter (·.node ≠ node)
        finished := batch.finished ++ [⟨task.node, task.startedAt, result⟩] }).Perm batch.results := by
    rintro result rfl
    rw [Batch.results, Batch.results, List.map_append, List.append_assoc]
    exact List.Perm.append_left _ (promises_perm hpledges.symm)
  have hpledge : task.pledge.script = task.script := rfl
  unfold runTask
  rcases hperf : perform task.node task.script r with ⟨stop, r₁⟩
  rw [hpledge, show task.pledge.node = task.node from rfl, hperf] at hgraph hstop
  rw [hperf] at heq
  have hcontext := congrArg Run.context heq
  have hiteration := congrArg Run.iteration heq
  have hfired := congrArg Run.firedSources heq
  cases stop with
  | finished result =>
    obtain ⟨hhalt, hmemory⟩ := hstop
    refine advances_turn h hp rfl hcontext hiteration hfired hgraph rfl rfl rfl (essentials_performed ..) hn hpledges
      (hended _ ?_) (hmemory ▸ .ended (List.Perm.refl _))
    rw [Pledge.result, hpledge, hhalt]
  | panicked message =>
    obtain ⟨hhalt, hmemory⟩ := hstop
    refine advances_turn h hp rfl hcontext hiteration hfired hgraph rfl rfl rfl (essentials_performed ..) hn hpledges
      (hended _ ?_) (hmemory ▸ .ended (List.Perm.refl _))
    rw [Pledge.result, hpledge, hhalt]
    rfl
  | asleep ms rest =>
    obtain ⟨hrest, hhalt, hmemory⟩ := hstop
    have htame : rest.Tame silent m := ⟨hrest, fun hs => silent_asleep (hd.calm hs) (congrArg Prod.fst hperf)⟩
    have hperm' : (Batch.pledges { batch with
        runnable := batch.runnable.filter (·.node ≠ node)
        asleep := batch.asleep ++ [⟨r₁.now + ms, { task with script := rest }⟩] }).Perm
          (⟨task.node, task.index, rest⟩ :: batch.others node) := by
      rw [Batch.pledges, List.map_append (f := Sleeper.task), ← List.append_assoc, List.map_append (f := Task.pledge)]
      exact List.perm_append_singleton _ _
    refine advances_turn h hp rfl hcontext hiteration hfired hgraph rfl rfl rfl (essentials_performed ..) hn hpledges ?_
      (.asleep hperm' htame hmemory.symm)
    have hsame : promises (⟨task.node, task.index, rest⟩ :: batch.others node) =
        promises (task.pledge :: batch.others node) := by
      have hresult : Pledge.result ⟨task.node, task.index, rest⟩ = task.pledge.result := by
        rw [Pledge.result, Pledge.result, hpledge, hhalt]
        rfl
      exact congrArg (fun result => (task.node, result) :: promises (batch.others node)) hresult
    have hpromises := promises_perm hperm'
    rw [hsame] at hpromises
    exact List.Perm.append_left _ (hpromises.trans (promises_perm hpledges.symm))

/-- An activation wakes up. -/
theorem advances_wake {r' : Run} {node : NodeId} (h : r.Tidy silent) (hs : r.wakeNode? node = some r') :
    Advances t silent r [] r' := by
  obtain ⟨batch, sleeper, hp, hsleeper, -, rfl⟩ := wakeNode?_eq_some.1 hs
  have hproper := h.apart batch hp
  have hasleep : (batch.asleep.map fun s => s.task.node).Nodup := Batch.nodup_asleep hproper
  obtain ⟨-, hperm⟩ := perm_of_find? (fun s : Sleeper => s.task.node) hasleep hsleeper
  have hpledges : (Batch.pledges { batch with
      runnable := batch.runnable ++ [sleeper.task]
      asleep := batch.asleep.filter (·.task.node ≠ node) }).Perm batch.pledges := by
    rw [Batch.pledges, List.append_assoc]
    exact ((hperm.map Sleeper.task).append_left batch.runnable).map Task.pledge
  have hresults : (Batch.results { batch with
      runnable := batch.runnable ++ [sleeper.task]
      asleep := batch.asleep.filter (·.task.node ≠ node) }).Perm batch.results :=
    (promises_perm hpledges).append_left _
  have hproper' := (hresults.map Prod.fst).nodup_iff.2 hproper
  refine ⟨.of_eq ?_, h.hosts, fun b hb => ?_, fun p hmem => ?_, fun result hresult => by cases hresult⟩
  · have hfind : (fun id => Table.find? id batch.results) = fun id => Table.find? id (Batch.results { batch with
        runnable := batch.runnable ++ [sleeper.task]
        asleep := batch.asleep.filter (·.task.node ≠ node) }) :=
      funext fun id => (Table.find?_perm hresults hproper' id).symm
    have hfulfilled := Graph.fulfilled_congr (g := r.graph) fun id =>
      pledgeOf?_perm hpledges (Batch.nodup_pledges hproper') id
    rw [essence_eq hp, essence_eq rfl]
    simp only [Phase.pledges, Phase.stage, hfind, hfulfilled]
  · cases hb
    exact hproper'
  · refine h.pledged p ?_
    rw [hp]
    exact hpledges.mem_iff.1 hmem

/-! ### Settling an iteration -/

theorem advances_settle {batch : Batch} {f : Finished} {rest : List Finished} (h : r.Tidy silent)
    (hp : r.phase = .activating batch) (hf : batch.finished = f :: rest)
    (horder : (t.order r.iteration)[batch.settled.length]? = some f.node) :
    Advances t silent r ((completed r.graph f.node f.result (r.now - f.startedAt)).map .publish) (r.settle batch f rest) := by
  have hproper := h.apart batch hp
  have hnone : pledgeOf? f.node batch.pledges = none :=
    Batch.pledgeOf?_finished hproper (by rw [hf]; exact List.mem_cons_self)
  have hresults : batch.results = (f.node, f.result) :: Batch.results { batch with finished := rest } := by
    rw [Batch.results, hf]
    rfl
  have hkeys := hproper
  rw [hresults] at hkeys
  obtain ⟨hfresh, hproper'⟩ := List.nodup_cons.1 hkeys
  have hcomplete := r.complete_eq f.node f.startedAt f.result
  unfold Run.settle
  rw [hcomplete]
  dsimp only
  refine ⟨?_, h.hosts.settle f.node f.result, fun b hb => ?_, fun p hmem => ?_, fun result hresult => by cases hresult⟩
  · refine .single ?_
    rw [essence_eq hp, essence_eq rfl, essentials_completed]
    have hpromise : Table.find? f.node batch.results = some f.result := by rw [hresults, Table.find?_cons, if_pos rfl]
    have hleft : (fun k => if k = f.node then none else Table.find? k batch.results) =
        fun k => Table.find? k (Batch.results { batch with finished := rest }) := by
      funext k
      rw [hresults, Table.find?_cons]
      by_cases hk : k = f.node
      · rw [if_pos hk, hk, Table.find?_eq_none.2 hfresh]
      · rw [if_neg hk, if_neg (Ne.symm hk)]
    simp only [Phase.pledges, Phase.stage, Essence.next?, horder, Option.bind_some, hpromise, Option.map_some,
      Essence.settle, Graph.completed_fulfilled hnone, Graph.completion_fulfilled hnone,
      ← Graph.fulfilled_settle h.hosts hnone, Graph.failureLine_fulfilled, hleft]
    rfl
  · cases hb
    exact hproper'
  · have hmem' : p ∈ r.phase.pledges := by
      rw [hp]
      exact hmem
    have hne : f.node ≠ p.node := fun e =>
      pledgeOf?_eq_none.1 hnone (e ▸ List.mem_map_of_mem (by rw [hp] at hmem'; exact hmem'))
    obtain ⟨n, hn, hd⟩ := h.pledged p hmem'
    exact ⟨n, by rw [Graph.node?_settle_of_ne h.hosts hne, hn], hd⟩

/-- When all activations are settled, what is next depends on their failures. -/
theorem next?_barrier {batch : Batch} (hp : r.phase = .activating batch) (hf : batch.finished = [])
    (hrunnable : batch.runnable = []) (hasleep : batch.asleep = []) : batch.pledges = [] ∧
      r.essence.next? t = some ([], r.essence.passBarrier batch.ready batch.failures) := by
  have hpledges : batch.pledges = [] := by simp [Batch.pledges, hrunnable, hasleep]
  have hresults : batch.results = [] := by simp [Batch.results, hf, hpledges, promises]
  refine ⟨hpledges, ?_⟩
  rw [essence_eq hp]
  simp only [Phase.stage, Essence.next?, hresults, Table.find?_nil, Option.map_none, Option.bind_fun_none]

theorem advances_pass {batch : Batch} (h : r.Tidy silent) (hp : r.phase = .activating batch) (hf : batch.finished = [])
    (hrunnable : batch.runnable = []) (hasleep : batch.asleep = []) (hfailures : batch.failures = []) :
    Advances t silent r [] (r.pass batch) := by
  obtain ⟨hpledges, hnext⟩ := next?_barrier (t := t) hp hf hrunnable hasleep
  rw [Run.pass, foldl_clearInputs_eq]
  refine ⟨.single ?_, .moving (h.hosts.replay (batch.ready.map .clear))⟩
  rw [hnext, essence_eq_of_nil hp hpledges, essence_moving, Essence.passBarrier, hfailures]
  rfl

theorem advances_fail {batch : Batch} (h : r.Tidy silent) (hp : r.phase = .activating batch) (hf : batch.finished = [])
    (hrunnable : batch.runnable = []) (hasleep : batch.asleep = []) (hfailures : batch.failures ≠ []) :
    Advances t silent r [] (r.endWith (.failed ("; ".intercalate batch.failures))) := by
  obtain ⟨hpledges, hnext⟩ := next?_barrier (t := t) hp hf hrunnable hasleep
  refine ⟨.single ?_, .endWith h.hosts⟩
  rw [hnext, essence_eq_of_nil hp hpledges, essence_endWith, Essence.passBarrier,
    List.isEmpty_eq_false_iff.2 hfailures, if_neg Bool.false_ne_true]
  rfl

/-! ### Moving outputs -/

theorem advances_propagate {id : NodeId} {depth : Nat} {work : List Work} {origins : List NodeId} (h : r.Tidy silent)
    (hp : r.phase = .propagating ⟨.propagate id depth :: work, origins⟩) :
    Advances t silent r (if (r.graph.transferOutputs id).transfers.isEmpty then []
      else [.publish (.dataPropagated id (r.graph.transferOutputs id).transfers)])
        (r.propagateFrom id depth ⟨work, origins⟩) := by
  have hosts := h.hosts.transferOutputs id
  have hnext : r.essence.next? t = some (r.essence.propagate id depth ⟨work, origins⟩) := by
    rw [essence_eq hp]
    rfl
  rw [essence_eq_of_nil hp rfl] at hnext
  have hkinds : Deed.essentials (if (r.graph.transferOutputs id).transfers.isEmpty then []
      else [.publish (.dataPropagated id (r.graph.transferOutputs id).transfers)]) =
      if (r.graph.transferOutputs id).transfers.isEmpty then []
      else [.dataPropagated id (r.graph.transferOutputs id).transfers] := by
    split_ifs <;> rfl
  -- The event changes the executor, which does not matter.
  obtain ⟨r₁, hr₁, hcontext, hgraph, hiteration, hfired⟩ : ∃ r₁ : Run,
      r₁ = (if (r.graph.transferOutputs id).transfers.isEmpty then { r with graph := (r.graph.transferOutputs id).graph }
        else ({ r with graph := (r.graph.transferOutputs id).graph } : Run).publish
          (.dataPropagated id (r.graph.transferOutputs id).transfers)) ∧
      r₁.context = r.context ∧ r₁.graph = (r.graph.transferOutputs id).graph ∧ r₁.iteration = r.iteration ∧
      r₁.firedSources = r.firedSources := by
    refine ⟨_, rfl, ?_⟩
    split_ifs <;> exact ⟨rfl, rfl, rfl, rfl⟩
  unfold Essence.propagate at hnext
  unfold propagateFrom
  dsimp only at hnext ⊢
  rw [← hr₁]
  rw [← hgraph] at hosts
  cases hfailure : (r.graph.transferOutputs id).failure with
  | some error =>
    rw [hfailure] at hnext
    refine ⟨?_, .endWith hosts⟩
    rw [hkinds, essence_eq_of_nil hp rfl, essence_endWith, hcontext, hgraph, hiteration, hfired]
    exact .single hnext
  | none =>
    rw [hfailure] at hnext
    refine ⟨?_, .moving hosts⟩
    rw [hkinds, essence_eq_of_nil hp rfl, essence_moving, hcontext, hgraph, hiteration, hfired]
    exact .single hnext

/-- The activation of a relay goes on up to its next wait or its end. -/
theorem advances_carry (task : Task) (depth : Nat) (agenda : Agenda) {n : Node}
    (hosts : r.graph.Hosts (Behavior.Tame silent)) (hn : r.graph.node? task.node = some n)
    (hd : task.script.Tame silent n.memory) (hc : (r.carry task depth agenda).executor.cancelled = false) :
    Essence.Leads t ⟨r.context, r.graph.fulfilled [⟨task.node, task.index, task.script⟩], r.iteration, r.firedSources,
        .relaying task.node task.script.halt depth agenda⟩ (Deed.essentials (r.carried task task.script))
        (r.carry task depth agenda).essence ∧
      (r.carry task depth agenda).Tidy silent := by
  have hid := hosts.named hn
  obtain ⟨m, hgraph, hstop⟩ := perform_determined hn hid hd.determined
    (Executor.replay_cancelled (afterRelay_executor .. ▸ hc))
  have heq := perform_eq task.node task.script r
  unfold carried carry
  rw [Deed.essentials_append, essentials_performed, List.nil_append]
  rcases hperf : perform task.node task.script r with ⟨stop, r₁⟩
  rw [hperf] at hgraph hstop heq
  dsimp only at hgraph hstop
  have hcontext := congrArg Run.context heq
  have hiteration := congrArg Run.iteration heq
  have hfired := congrArg Run.firedSources heq
  have hosts₁ : r₁.graph.Hosts (Behavior.Tame silent) := by
    rw [hgraph]
    exact hosts.remember hn m
  dsimp only at hcontext hiteration hfired
  have hsingle := Graph.fulfilled_singleton (p := ⟨task.node, task.index, task.script⟩) hosts hn
  cases stop with
  | finished result =>
    obtain ⟨hhalt, rfl⟩ := hstop
    rw [hsingle, ← hgraph, hhalt, closing, essentials_completed, afterRelay, complete_eq]
    cases hcompletion : r₁.graph.completion task.node result with
    | error error =>
      refine ⟨.single ?_, .endWith (hosts₁.settle task.node result)⟩
      rw [essence_endWith]
      simp only [Essence.next?, Essence.conclude, hcompletion, ← hcontext, ← hiteration, ← hfired]
      rfl
    | ok =>
      refine ⟨.single ?_, .moving ((hosts₁.settle task.node result).clear task.node)⟩
      rw [essence_moving]
      simp only [Essence.next?, Essence.conclude, hcompletion, ← hcontext, ← hiteration, ← hfired]
      rfl
  | panicked message =>
    obtain ⟨hhalt, rfl⟩ := hstop
    rw [hsingle, ← hgraph, hhalt, closing, afterRelay]
    refine ⟨.single ?_, .of_nil (p := .broken message) hosts₁ rfl rfl (by simp) (by simp)⟩
    rw [essence_eq_of_nil rfl rfl, ← hcontext, ← hiteration, ← hfired]
    rfl
  | asleep ms rest =>
    obtain ⟨hrest, hhalt, hmemory⟩ := hstop
    have hn₁ : r₁.graph.node? task.node = some { n with memory := m } := by
      rw [hgraph, hosts.node?_remember hn, if_pos rfl]
    -- Half way, the node is pledged to the same as before.
    have hsame : r₁.graph.fulfilled [⟨task.node, task.index, rest⟩] = r.graph.fulfilled [⟨task.node, task.index, task.script⟩] := by
      rw [hsingle, Graph.fulfilled_singleton hosts₁ hn₁, hgraph, hmemory]
      simp only [Graph.setNode, Table.set_set]
    rw [closing, afterRelay]
    refine ⟨.of_eq ?_, ⟨hosts₁, fun b hb => ?_, fun p hmem => ?_, fun result hresult => by cases hresult⟩⟩
    · rw [essence_eq rfl, hhalt, ← hsame, ← hcontext, ← hiteration, ← hfired]
      rfl
    · cases hb
    · obtain rfl := List.mem_singleton.1 hmem
      exact ⟨_, hn₁, hrest, fun hs => silent_asleep (hd.calm hs) (congrArg Prod.fst hperf)⟩

section Reach

variable {id : NodeId} {depth : Nat} {work : List Work} {origins : List NodeId}

theorem next?_reach (hp : r.phase = .propagating ⟨.activate id depth :: work, origins⟩) :
    r.essence.next? t = some (Essence.reach t ⟨r.context, r.graph, r.iteration, r.firedSources,
      .moving ⟨.activate id depth :: work, origins⟩⟩ id depth ⟨work, origins⟩) := by
  rw [essence_eq_of_nil hp rfl]
  rfl

theorem advances_skip (h : r.Tidy silent) (hp : r.phase = .propagating ⟨.activate id depth :: work, origins⟩)
    (hready : r.graph.isReady id = false) : Advances t silent r [] { r with phase := .propagating ⟨work, origins⟩ } := by
  refine ⟨.single ?_, .moving h.hosts⟩
  rw [next?_reach hp, essence_moving, Essence.reach]
  dsimp only
  cases r.graph.node? id with
  | none => rfl
  | some n =>
    rw [hready]
    rfl

theorem advances_exceed {n : Node} (h : r.Tidy silent) (hlimit : r.executor.config.maxRelayDepth = t.maxRelayDepth)
    (hp : r.phase = .propagating ⟨.activate id depth :: work, origins⟩) (hn : r.graph.node? id = some n)
    (hready : r.graph.isReady id = true) (hdepth : r.executor.config.maxRelayDepth < depth) :
    Advances t silent r [] (r.endWith (.failed (r.depthFailure id))) := by
  refine ⟨.single ?_, .endWith h.hosts⟩
  rw [next?_reach hp, essence_endWith, Essence.reach, depthFailure, hlimit]
  simp only [hn, hready, Bool.not_true, Bool.false_eq_true, if_false, hlimit ▸ hdepth, if_true]
  rfl

/-- A relay begins, and then goes on up to its next wait or its end. -/
theorem advances_relay {n : Node} (h : r.Tidy silent) (hlimit : r.executor.config.maxRelayDepth = t.maxRelayDepth)
    (hp : r.phase = .propagating ⟨.activate id depth :: work, origins⟩) (hn : r.graph.node? id = some n)
    (hready : r.graph.isReady id = true) (hdepth : depth ≤ r.executor.config.maxRelayDepth)
    (hc : ((r.launch n).2.carry (r.launch n).1 depth ⟨work, origins⟩).executor.cancelled = false) :
    Advances t silent r
      (.publish (.nodeStarted n.id n.typeId) :: (r.launch n).2.carried (r.launch n).1 (r.launch n).1.script)
      ((r.launch n).2.carry (r.launch n).1 depth ⟨work, origins⟩) := by
  obtain rfl : n.id = id := h.hosts.named hn
  have hgraph : (r.launch n).2.graph = r.graph.setNode n.prepare.2 := rfl
  have hosts : (r.launch n).2.graph.Hosts (Behavior.Tame silent) := h.hosts.setNode (m := n) (n := n.prepare.2) hn rfl
  have hnode : (r.launch n).2.graph.node? n.id = some n.prepare.2 := by
    rw [hgraph, Graph.node?_setNode]
    exact if_pos rfl
  obtain ⟨hleads, htidy⟩ := advances_carry (t := t) (r.launch n).1 depth ⟨work, origins⟩ hosts hnode
    (h.hosts.behaves hn _ _) hc
  have hnext := next?_reach (t := t) hp
  unfold Essence.reach at hnext
  simp only [hn, hready, Bool.not_true, Bool.false_eq_true, if_false, hlimit ▸ not_lt.2 hdepth] at hnext
  exact ⟨.step hnext hleads, htidy⟩

end Reach

/-! ### Every step goes on -/

/-- What is settled of an iteration is the beginning of what is to be settled, in a given order. -/
def InOrder (order : Nat → List NodeId) (r : Run) : Prop :=
  ∀ batch, r.phase = .activating batch → batch.settled <+: order r.iteration

/-- What is settled next is next in the order. -/
theorem InOrder.settle {batch : Batch} {f : Finished} {rest : List Finished} {order : Nat → List NodeId}
    (h : (r.settle batch f rest).InOrder order) : (order r.iteration)[batch.settled.length]? = some f.node := by
  have hprefix := h _ rfl
  have hiteration : (r.settle batch f rest).iteration = r.iteration := by
    unfold Run.settle
    rw [complete_eq]
  rw [hiteration] at hprefix
  obtain ⟨later, hlater⟩ := hprefix
  rw [← hlater]
  simp

/-- A step between iterations. -/
theorem advances_idle {r' : Run} {deeds : List Deed} {p p' : Phase} (h : r.Tidy silent) (hp : r.phase = p) (hp' : r'.phase = p')
    (hstage : p.stage = .idle) (hstage' : p'.stage = .idle) (hcontext : r'.context = r.context) (hgraph : r'.graph = r.graph)
    (hiteration : r'.iteration = r.iteration) (hfired : r'.firedSources = r.firedSources)
    (hdeeds : Deed.essentials deeds = []) : Advances t silent r deeds r' := by
  refine ⟨?_, .idle (hgraph ▸ h.hosts) hp' hstage'⟩
  rw [hdeeds, essence_idle hp hstage, essence_idle hp' hstage', hcontext, hgraph, hiteration, hfired]
  exact .refl _

theorem essentials_ended (r : Run) : Deed.essentials r.ended = [] := by
  unfold ended
  split_ifs <;> rfl

/-- When all outputs are moved, the next iteration is about to begin, perhaps after a while. -/
theorem advances_finish {r' : Run} {deeds : List Deed} {p : Phase} (h : r.Tidy silent) (hp : r.phase = .propagating ⟨[], []⟩)
    (hp' : r'.phase = p) (hstage : p.stage = .idle) (hcontext : r'.context = r.context) (hgraph : r'.graph = r.graph)
    (hiteration : r'.iteration = r.iteration) (hfired : r'.firedSources = r.firedSources)
    (hdeeds : Deed.essentials deeds = []) : Advances t silent r deeds r' := by
  refine ⟨?_, .idle (hgraph ▸ h.hosts) hp' hstage⟩
  rw [hdeeds, essence_eq_of_nil hp rfl, essence_idle hp' hstage, hcontext, hgraph, hiteration, hfired]
  exact .single rfl

theorem Drives.advances {r' : Run} {acts : List Act} {deeds : List Deed} (hd : r.Drives acts deeds r') (h : r.Tidy silent)
    (hdepth : r.executor.config.maxRelayDepth = t.maxRelayDepth) (hc : r.executor.cancelled = false)
    (hc' : r'.executor.cancelled = false) (hactive : r.phase.isFinal = false → r.executor.state ≠ .idle)
    (horder : r'.InOrder t.order) : Advances t silent r deeds r' := by
  cases hd with
  | desist _ hcancelled | look _ _ hcancelled | abandon _ hcancelled | refuse _ _ _ _ hcancelled | leave _ hcancelled
    | quit _ hcancelled =>
    rw [hc] at hcancelled
    cases hcancelled
  | begin hp => exact advances_begin h hp
  | park hp | rouse hp => exact advances_idle h hp rfl rfl rfl rfl rfl rfl rfl rfl
  | lose hp _ hstate => exact absurd hstate (hactive (by rw [hp]; rfl))
  | settle hp _ hf => exact advances_settle h hp hf horder.settle
  | pass hp _ hf hrunnable hasleep hfailures => exact advances_pass h hp hf hrunnable hasleep hfailures
  | fail hp _ hf hrunnable hasleep hfailures => exact advances_fail h hp hf hrunnable hasleep hfailures
  | move hp => exact advances_propagate h hp
  | skip hp hready => exact advances_skip h hp hready
  | exceed hp hn hready hlong => exact advances_exceed h hdepth hp hn hready hlong
  | relay hp hn hready hshort => exact advances_relay h hdepth hp hn hready hshort hc'
  | next hp =>
    refine ⟨?_, .moving h.hosts⟩
    rw [essence_eq_of_nil hp rfl, essence_moving]
    exact .single rfl
  | delay hp => exact advances_finish h hp rfl rfl rfl rfl rfl rfl rfl
  | turn hp => exact advances_finish h hp rfl rfl rfl rfl rfl rfl (essentials_ended r)
  | @resume relay depth agenda hp =>
    obtain ⟨n, hn, htame⟩ := h.pledged relay.task.pledge (by rw [hp]; exact List.mem_singleton.2 rfl)
    obtain ⟨hleads, htidy⟩ := advances_carry relay.task depth agenda h.hosts hn htame hc'
    refine ⟨?_, htidy⟩
    rw [essence_eq hp]
    exact hleads
  | elapse hp => exact advances_idle h hp rfl rfl rfl rfl rfl rfl rfl (essentials_ended r)
  | report hp =>
    refine ⟨.of_eq ?_, h.hosts, fun b hb => ?_, fun p hmem => ?_, fun result hresult => ?_⟩
    · rw [essence_eq_of_nil hp rfl, essence_eq rfl]
      exact congrArg (Essence.mk _ · _ _ _) (Graph.fulfilled_nil _).symm
    · cases hb
    · cases hmem
    · cases hresult
      rfl

/-- **Every step of a run goes on from what matters of it**, unless the run is cancelled, or its activations are settled
in another order. -/
theorem advances_step {r' : Run} {s : Signal} (h : r.Tidy silent) (hdepth : r.executor.config.maxRelayDepth = t.maxRelayDepth)
    (hc : r'.executor.cancelled = false) (hactive : r.phase.isFinal = false → r.executor.state ≠ .idle)
    (hs : r.step? s = some r') (horder : r'.InOrder t.order) : Advances t silent r (r.deeds s) r' := by
  cases s with
  | drive => exact (drives_of_drive? hs).advances h hdepth (uncancelled_step hs hc) hc hactive horder
  | run node => exact advances_run h hc hs
  | wake node => exact advances_wake h hs
  | control c =>
    cases hs
    exact ⟨.refl _, h.of_same rfl rfl rfl⟩
  | pass ms =>
    cases hs
    exact ⟨.refl _, h.of_same rfl rfl rfl⟩

end Advance

end Run

end Dataflow
