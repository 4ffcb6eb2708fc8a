import Dataflow.Proofs.Run.Agreement
import Dataflow.Proofs.Run.Rounds

/-!
# Runs without relays, iteration by iteration

What matters of a run goes on activation by activation and node by node. Without relays, it goes on iteration by iteration.

* `Essence.Goes` is a step of what matters of a run, whichever activation is settled next; `Run.Upright.goes`: each step of a
  run makes such steps;
* `Essence.Amid` says where such steps have got to in an iteration, and `Essence.Resting.goes`: until the iteration fails, or
  comes to an end as `Essence.Passes` says;
* `Run.Upright.course`: a run has gone through some iterations, and stands in the one after them.
-/

namespace Dataflow

namespace Essence

variable {s : Supply} {t : Terms} {e e₀ e₁ e' : Essence} {kinds : List EventKind}

/-! ### Steps in any order -/

/-- A step of what matters of a run, whichever activation is settled next. The barrier is passed when all are settled. -/
inductive Goes : Essence → Essence → Prop
  | settle {e : Essence} {ready settled : List NodeId} {promise : NodeId → Option (Except NodeError Output)}
      {failures : List String} {id : NodeId} {result : Except NodeError Output}
      (hstage : e.stage = .settling ready promise settled failures) (hpromise : promise id = some result) :
      Goes e (e.settle ready promise settled failures id result).2
  | barrier {e : Essence} {ready settled : List NodeId} {promise : NodeId → Option (Except NodeError Output)}
      {failures : List String} (hstage : e.stage = .settling ready promise settled failures)
      (hnone : ∀ id, promise id = none) : Goes e (e.passBarrier ready failures)
  | next {t : Terms} {e e' : Essence} {kinds : List EventKind} (hstage : e.stage.settled? = none)
      (h : e.next? t = some (kinds, e')) : Goes e e'

theorem settled?_eq_some {stage : Stage} {settled : List NodeId} (h : stage.settled? = some settled) :
    ∃ ready promise failures, stage = .settling ready promise settled failures := by
  cases stage with
  | settling ready promise settled' failures =>
    cases h
    exact ⟨ready, promise, failures, rfl⟩
  | _ => cases h

theorem Before.iteration_le (h : e.Before e') : e.iteration ≤ e'.iteration := by
  rcases h with hlt | ⟨heq, -⟩
  · exact hlt.le
  · exact heq.le

/-- Whoever still settles later in the same iteration settles now. -/
theorem Before.settled? (h : e.Before e') (hiteration : e'.iteration = e.iteration) (hnone : e.stage.settled? = none) :
    e'.stage.settled? = none := by
  rcases h with hlt | ⟨-, hsettled⟩
  · omega
  · cases hs : e'.stage.settled? with
    | none => rfl
    | some settled' =>
      obtain ⟨settled, hsettled, -⟩ := hsettled settled' hs
      rw [hnone] at hsettled
      cases hsettled

theorem settled?_passBarrier (e : Essence) (ready : List NodeId) (failures : List String) :
    (e.passBarrier ready failures).stage.settled? = none := by
  unfold passBarrier
  split_ifs <;> rfl

/-- Within an iteration, up to a state in which activations are still settled, nothing but that is done. -/
theorem Leads.goes_settling (h : Leads t e kinds e') (hiteration : e'.iteration = e.iteration)
    (hsettling : e'.stage.settled? ≠ none) : Relation.ReflTransGen Goes e e' := by
  induction h with
  | refl => exact .refl
  | @step e e₁ e' kinds kinds' hs hrest ih =>
    have hle := (before_next hs).iteration_le
    have hle' := hrest.before.iteration_le
    have hiteration₁ : e₁.iteration = e.iteration := by omega
    have hsettling₁ : e₁.stage.settled? ≠ none := fun hnone => hsettling (hrest.before.settled? (by omega) hnone)
    have hsettling₀ : e.stage.settled? ≠ none := fun hnone => hsettling₁ ((before_next hs).settled? hiteration₁ hnone)
    refine .head ?_ (ih (by omega) hsettling)
    obtain ⟨settled, hsettled⟩ := Option.ne_none_iff_exists'.1 hsettling₀
    obtain ⟨ready, promise, failures, hstage⟩ := settled?_eq_some hsettled
    simp only [next?, hstage] at hs
    split at hs
    · rename_i id result hnext
      obtain ⟨k, -, hk⟩ := Option.bind_eq_some_iff.1 hnext
      obtain ⟨result', hresult, heq⟩ := Option.map_eq_some_iff.1 hk
      obtain ⟨rfl, rfl⟩ := Prod.mk.inj heq
      have he₁ : (e.settle ready promise settled failures k result').2 = e₁ := congrArg Prod.snd (Option.some.inj hs)
      exact he₁ ▸ .settle hstage hresult
    · -- Past the barrier, nothing is settled.
      have he₁ : e.passBarrier ready failures = e₁ := congrArg Prod.snd (Option.some.inj hs)
      exact absurd (he₁ ▸ settled?_passBarrier e ready failures) hsettling₁

/-- Within an iteration, past the barrier. -/
theorem Leads.goes_past (h : Leads t e kinds e') (hiteration : e'.iteration = e.iteration)
    (hnone : e.stage.settled? = none) : Relation.ReflTransGen Goes e e' := by
  induction h with
  | refl => exact .refl
  | @step e e₁ e' kinds kinds' hs hrest ih =>
    have hle := (before_next hs).iteration_le
    have hle' := hrest.before.iteration_le
    have hnone₁ : e₁.stage.settled? = none := (before_next hs).settled? (by omega) hnone
    exact .head (.next hnone hs) (ih (by omega) hnone₁)

/-- Over the barrier, where nothing is promised any more. -/
theorem Leads.goes_barrier {ready settled : List NodeId} {promise : NodeId → Option (Except NodeError Output)}
    {failures : List String} (h : Leads t e kinds e') (hstage : e.stage = .settling ready promise settled failures)
    (hnone : ∀ id, promise id = none) (hiteration : e'.iteration = e.iteration) (hpast : e'.stage.settled? = none) :
    Relation.ReflTransGen Goes e e' := by
  cases h with
  | refl =>
    have hsettled : e.stage.settled? = some settled := by rw [hstage]; rfl
    exact absurd (hsettled.symm.trans hpast) (Option.some_ne_none settled)
  | @step _ e₁ _ kinds kinds' hs hrest =>
    have hle := (before_next hs).iteration_le
    have hle' := hrest.before.iteration_le
    simp only [next?, hstage, hnone, Option.map_none, Option.bind_fun_none] at hs
    have he₁ : e.passBarrier ready failures = e₁ := congrArg Prod.snd (Option.some.inj hs)
    exact .head (he₁ ▸ .barrier hstage hnone) (hrest.goes_past (by omega) (he₁ ▸ settled?_passBarrier e ready failures))

/-- Into the next iteration. -/
theorem Leads.goes_begun (h : Leads t e kinds e') (hidle : e.stage = .idle) (hiteration : e'.iteration = e.iteration + 1)
    (hsettling : e'.stage.settled? ≠ none) : Relation.ReflTransGen Goes e e' := by
  cases h with
  | refl => omega
  | @step _ e₁ _ kinds kinds' hs hrest =>
    have hbegin : e.next? t = some e.begin := by simp only [next?, hidle]
    have he₁ : e.begin.2 = e₁ := congrArg Prod.snd (Option.some.inj (hbegin.symm.trans hs))
    refine .head (.next (by rw [hidle]; rfl) hs) (hrest.goes_settling ?_ hsettling)
    have hle := hrest.before.iteration_le
    unfold begin at he₁
    dsimp only at he₁
    split_ifs at he₁ with hempty
    · -- A run that has ended goes nowhere.
      cases hrest with
      | refl => exact absurd (by rw [← he₁]; rfl) hsettling
      | step hs' => rw [← he₁] at hs'; cases hs'
    · rw [← he₁] at hle ⊢
      exact hiteration

/-! ### Within an iteration -/

/-- A state between iterations, of a graph without relays. -/
structure Resting (s : Supply) (e : Essence) : Prop extends Poised s e where
  idle : e.stage = .idle
  unrelayed : ∀ id, e.graph.isRelay id = false

/-- Where an iteration stands that begins with a state. -/
inductive Amid (e₀ : Essence) : Essence → Prop
  /-- It is about to begin. -/
  | idle : Amid e₀ e₀
  /-- Some of its activations are settled. -/
  | settling {order : List NodeId} {promise : NodeId → Option (Except NodeError Output)} {failures : List String}
      (hready : e₀.ready ≠ []) (hnodup : order.Nodup) (hsub : order ⊆ e₀.ready)
      (hpromise : ∀ id, promise id = if id ∈ order then none else e₀.result? id)
      (hfailures : failures = [] ↔ ∀ id ∈ order, ¬ e₀.Stumbles id) :
      Amid e₀ ⟨e₀.context, e₀.settled order, e₀.iteration + 1, e₀.spent, .settling e₀.ready promise order failures⟩
  /-- The outputs of some of its nodes were moved. -/
  | moving {order done pending : List NodeId} {graph : Graph} {agenda : Agenda} (hready : e₀.ready ≠ [])
      (hok : ∀ id ∈ e₀.ready, ¬ e₀.Stumbles id) (hperm : order.Perm e₀.ready)
      (hconvey : Graph.convey done (e₀.cleared order) = some graph) (hall : done ++ pending = e₀.ready)
      (hagenda : agenda = ⟨[], pending⟩ ∨ ∃ id rest, pending = id :: rest ∧ agenda = ⟨[.propagate id 0], rest⟩) :
      Amid e₀ ⟨e₀.context, graph, e₀.iteration + 1, e₀.spent, .moving agenda⟩
  /-- No node was ready. -/
  | completed (hready : e₀.ready = []) : Amid e₀ ⟨e₀.context, e₀.graph, e₀.iteration, e₀.spent, .ended .completed⟩
  /-- It has failed. -/
  | failed {e : Essence} {message : String} (hfails : e₀.Fails) (hiteration : e.iteration = e₀.iteration + 1)
      (hstage : e.stage = .ended (.failed message)) : Amid e₀ e

theorem amid_begin (e₀ : Essence) : Amid e₀ e₀.begin.2 := by
  by_cases hempty : (Run.collectReady e₀.graph e₀.graph.nodeList e₀.fired).1.isEmpty = true
  · have hbegin : e₀.begin.2 = ⟨e₀.context, e₀.graph, e₀.iteration, e₀.spent, .ended .completed⟩ := by
      unfold begin
      dsimp only
      rw [if_pos hempty]
      rfl
    exact hbegin ▸ .completed (List.isEmpty_iff.1 hempty)
  · have hbegin : e₀.begin.2 =
        ⟨e₀.context, e₀.launched, e₀.iteration + 1, e₀.spent, .settling e₀.ready e₀.result? [] []⟩ := by
      unfold begin
      dsimp only
      rw [if_neg hempty]
      rfl
    have hnone : ([] : List String) = [] ↔ ∀ id ∈ [], ¬ e₀.Stumbles id :=
      ⟨fun _ id hid => absurd hid List.not_mem_nil, fun _ => rfl⟩
    exact hbegin ▸ .settling (fun hnil => hempty (List.isEmpty_iff.2 hnil)) List.nodup_nil (List.nil_subset _)
      (fun id => (if_neg List.not_mem_nil).symm) hnone

section Resting

variable (h : e₀.Resting s)

include h

/-- One more activation is settled. -/
theorem Resting.amid_settle {order : List NodeId} {promise : NodeId → Option (Except NodeError Output)}
    {failures : List String} {id : NodeId} {result : Except NodeError Output} (hready : e₀.ready ≠ []) (hnodup : order.Nodup)
    (hsub : order ⊆ e₀.ready) (hpromise : ∀ id, promise id = if id ∈ order then none else e₀.result? id)
    (hfailures : failures = [] ↔ ∀ id ∈ order, ¬ e₀.Stumbles id) (hresult : promise id = some result) :
    Amid e₀ (settle ⟨e₀.context, e₀.settled order, e₀.iteration + 1, e₀.spent, .settling e₀.ready promise order failures⟩
      e₀.ready promise order failures id result).2 := by
  have hnew : id ∉ order := fun hid => by
    rw [hpromise, if_pos hid] at hresult
    cases hresult
  have hresult? : e₀.result? id = some result := by rw [← hresult, hpromise, if_neg hnew]
  have hid : id ∈ e₀.ready := by
    by_contra hid
    rw [result?_of_notMem hid] at hresult?
    cases hresult?
  obtain rfl : e₀.result id = result := by rw [Essence.result, hresult?, Option.getD_some]
  -- The activations that were settled before are those of other nodes.
  have hcompletion := h.completion_settled hnodup hnew (e₀.result id)
  have hsettled : (e₀.settled order).settle id (e₀.result id) = e₀.settled (order ++ [id]) := by
    simp only [Essence.settled, List.map_append, Graph.replay_append]
    rfl
  have hnodup' : (order ++ [id]).Nodup := List.nodup_append.2 ⟨hnodup, List.nodup_singleton id, fun k hk k' hk' e =>
    hnew (List.mem_singleton.1 hk' ▸ e ▸ hk)⟩
  have hsub' : order ++ [id] ⊆ e₀.ready := List.append_subset.2 ⟨hsub, List.cons_subset.2 ⟨hid, List.nil_subset _⟩⟩
  unfold settle
  dsimp only
  rw [hsettled, hcompletion]
  refine .settling hready hnodup' hsub' (fun k => ?_) ?_
  · by_cases hk : k = id
    · simp [hk]
    · simp [hk, hpromise]
  · cases hc : e₀.launched.completion id (e₀.result id) with
    | ok =>
      have hfine : ¬ e₀.Stumbles id := by
        rintro ⟨error, herror⟩
        rw [hc] at herror
        cases herror
      simp only [hfailures, List.forall_mem_append, List.forall_mem_singleton, hfine, not_false_eq_true, and_true]
    | error error =>
      refine ⟨fun hnil => absurd hnil (by simp), fun hall => absurd ⟨error, hc⟩ (hall id (by simp))⟩

/-- The barrier is passed. -/
theorem Resting.amid_barrier {order : List NodeId} {promise : NodeId → Option (Except NodeError Output)}
    {failures : List String} (hready : e₀.ready ≠ []) (hnodup : order.Nodup) (hsub : order ⊆ e₀.ready)
    (hpromise : ∀ id, promise id = if id ∈ order then none else e₀.result? id)
    (hfailures : failures = [] ↔ ∀ id ∈ order, ¬ e₀.Stumbles id) (hnone : ∀ id, promise id = none) :
    Amid e₀ (passBarrier ⟨e₀.context, e₀.settled order, e₀.iteration + 1, e₀.spent, .settling e₀.ready promise order failures⟩
      e₀.ready failures) := by
  -- Each node of the iteration has had its result.
  have hall : ∀ id ∈ e₀.ready, id ∈ order := by
    intro id hid
    by_contra hnew
    obtain ⟨n, hn⟩ := h.exists_node hid
    obtain ⟨place, hplace⟩ := h.result?_eq hid hn
    have hresult := hpromise id
    rw [hnone, if_neg hnew, hplace] at hresult
    cases hresult
  have hperm : order.Perm e₀.ready :=
    (List.perm_ext_iff_of_nodup hnodup h.nodup_ready).2 fun id => ⟨fun hid => hsub hid, hall id⟩
  unfold passBarrier
  dsimp only
  split_ifs with hempty
  · have hok := hfailures.1 (List.isEmpty_iff.1 hempty)
    have hconvey : Graph.convey [] (e₀.cleared order) = some (e₀.cleared order) := rfl
    exact .moving hready (fun id hid => hok id (hall id hid)) hperm hconvey (List.nil_append _) (Or.inl rfl)
  · refine .failed ⟨hready, Or.inl ?_⟩ rfl rfl
    by_contra hnone'
    exact hempty (List.isEmpty_iff.2 (hfailures.2 fun id hid hstumbles => hnone' ⟨id, hsub hid, hstumbles⟩))

theorem Resting.isRelay_replay (order : List NodeId) (acts : List Act) (id : NodeId) :
    ((e₀.cleared order).replay acts).isRelay id = false := by
  obtain ⟨acts', hacts'⟩ := h.launched_eq
  rw [cleared, settled, hacts', ← Graph.replay_append, ← Graph.replay_append, ← Graph.replay_append,
    Graph.isRelay_replay h.named, h.unrelayed]

/-- The outputs of one more node are moved, which triggers nothing. -/
theorem Resting.amid_propagate {order done rest : List NodeId} {id : NodeId} {graph : Graph} (hready : e₀.ready ≠ [])
    (hok : ∀ id ∈ e₀.ready, ¬ e₀.Stumbles id) (hperm : order.Perm e₀.ready)
    (hconvey : Graph.convey done (e₀.cleared order) = some graph) (hall : done ++ id :: rest = e₀.ready) :
    Amid e₀ (propagate ⟨e₀.context, graph, e₀.iteration + 1, e₀.spent, .moving ⟨[.propagate id 0], rest⟩⟩
      id 0 ⟨[], rest⟩).2 := by
  have hnodup : done.Nodup := (hall ▸ h.nodup_ready).of_append_left
  have hgraph := ((h.threaded_cleared order).convey_eq_some hnodup).1 hconvey |>.2
  have hnamed : graph.Named := hgraph ▸ ((h.hosts_cleared order).replay _).isNamed
  have hsplit : Graph.convey (done ++ [id]) (e₀.cleared order) = Graph.convey [id] graph := by
    rw [Graph.convey_append, hconvey, Option.bind_some]
  unfold propagate
  dsimp only
  cases hfailure : (graph.transferOutputs id).failure with
  | some error =>
    refine .failed ⟨hready, Or.inr ⟨order, hperm, ?_⟩⟩ rfl rfl
    rw [← hall, Graph.convey_append, hconvey, Option.bind_some, Graph.convey, if_neg (by simp [hfailure])]
  | none =>
    have hrelays : (graph.transferOutputs id).relays = [] := by
      refine List.eq_nil_iff_forall_not_mem.2 fun relay hrelay => ?_
      have htrue := Graph.isRelay_transferOutputs hnamed hrelay
      rw [hgraph, h.isRelay_replay] at htrue
      cases htrue
    have hconvey' : Graph.convey (done ++ [id]) (e₀.cleared order) = some (graph.transferOutputs id).graph := by
      rw [hsplit, Graph.convey, if_pos hfailure, Graph.convey]
    simp only [hrelays, List.filter_nil, List.map_nil, List.nil_append]
    exact .moving hready hok hperm hconvey' (by rw [List.append_assoc]; exact hall) (Or.inl rfl)

/-- **A step within an iteration leads to its end, or stays within it.** -/
theorem Resting.goes (hamid : Amid e₀ e) (hgo : Goes e e') : Amid e₀ e' ∨ e₀.Passes e' := by
  cases hamid with
  | idle =>
    cases hgo with
    | settle hstage | barrier hstage => rw [h.idle] at hstage; cases hstage
    | next _ hnext =>
      simp only [next?, h.idle, Option.some.injEq] at hnext
      have he' : e.begin.2 = e' := congrArg Prod.snd hnext
      exact Or.inl (he' ▸ amid_begin e)
  | settling hready hnodup hsub hpromise hfailures =>
    cases hgo with
    | settle hstage hresult =>
      cases hstage
      exact Or.inl (h.amid_settle hready hnodup hsub hpromise hfailures hresult)
    | barrier hstage hnone =>
      cases hstage
      exact Or.inl (h.amid_barrier hready hnodup hsub hpromise hfailures hnone)
    | next hstage => cases hstage
  | @moving order done pending graph agenda hready hok hperm hconvey hall hagenda =>
    cases hgo with
    | settle hstage | barrier hstage => cases hstage
    | next _ hnext =>
      rcases hagenda with rfl | ⟨id, rest, rfl, rfl⟩
      · cases pending with
        | nil =>
          cases hnext
          rw [List.append_nil] at hall
          subst hall
          exact Or.inr ⟨hready, hok, order, graph, hperm, hconvey, rfl⟩
        | cons id rest =>
          cases hnext
          exact Or.inl (.moving hready hok hperm hconvey hall (Or.inr ⟨id, rest, rfl, rfl⟩))
      · cases hnext
        exact Or.inl (h.amid_propagate hready hok hperm hconvey hall)
  | completed =>
    cases hgo with
    | settle hstage | barrier hstage => cases hstage
    | next _ hnext => cases hnext
  | failed _ _ hended =>
    cases hgo with
    | settle hstage | barrier hstage => rw [hended] at hstage; cases hstage
    | next _ hnext => simp only [next?, hended, reduceCtorEq] at hnext

/-- An iteration leaves a state between iterations again. -/
theorem Resting.passes (hp : e₀.Passes e) : e.Resting s := by
  obtain ⟨-, -, order, graph, -, hconvey, rfl⟩ := hp
  have hgraph := ((h.threaded_cleared order).convey_eq_some h.nodup_ready).1 hconvey |>.2
  refine ⟨⟨h.hosts_convey hconvey, ?_⟩, rfl, fun id => ?_⟩
  · rw [show graph = _ from hgraph]
    exact (h.threaded_cleared order).replay _
  · rw [show graph = _ from hgraph]
    exact h.isRelay_replay order _ id

/-- **Steps lead through iterations, up to the one that is under way.** -/
theorem Resting.course (hsteps : Relation.ReflTransGen Goes e₀ e) :
    ∃ e₁, Relation.ReflTransGen Passes e₀ e₁ ∧ e₁.Resting s ∧ Amid e₁ e := by
  induction hsteps with
  | refl => exact ⟨e₀, .refl, h, .idle⟩
  | tail _ hgo ih =>
    obtain ⟨e₁, hpasses, hrest, hamid⟩ := ih
    rcases hrest.goes hamid hgo with hamid' | hp
    · exact ⟨e₁, hpasses, hrest, hamid'⟩
    · exact ⟨_, hpasses.tail hp, hrest.passes hp, .idle⟩

end Resting

/-! ### Two courses that begin alike -/

/-- **Of two courses that begin alike, one has got as far as the other one, or further.** They are alike where both have
been. -/
theorem Alike.courses {f f' : Essence} (h : e.Alike s e') (hf : Relation.ReflTransGen Passes e f)
    (hf' : Relation.ReflTransGen Passes e' f') :
    f.Alike s f' ∨ (∃ k, f.Alike s k ∧ Relation.TransGen Passes k f') ∨ ∃ k, k.Alike s f' ∧ Relation.TransGen Passes k f := by
  induction hf using Relation.ReflTransGen.head_induction_on generalizing e' with
  | refl =>
    rcases Relation.reflTransGen_iff_eq_or_transGen.1 hf' with rfl | hfurther
    · exact Or.inl h
    · exact Or.inr (Or.inl ⟨e', h, hfurther⟩)
  | @head e e₁ hp hrest ih =>
    rcases hf'.cases_head with rfl | ⟨e₁', hp', hrest'⟩
    · exact Or.inr (Or.inr ⟨e, h, .head' hp hrest⟩)
    · exact ih (h.passes hp hp') hrest'

/-! ### Where two courses have got to -/

/-- An iteration is under way, or the one before it is over. -/
theorem Amid.iteration (h : Amid e₀ e) : e₀.iteration ≤ e.iteration ∧ e.iteration ≤ e₀.iteration + 1 := by
  cases h with
  | idle | completed => exact ⟨le_refl _, Nat.le_succ _⟩
  | settling | moving => exact ⟨Nat.le_succ _, le_refl _⟩
  | failed _ hiteration => exact ⟨hiteration ▸ Nat.le_succ _, hiteration.le⟩

theorem Amid.iteration_of_nil (h : Amid e₀ e) (hnil : e₀.ready = []) : e.iteration = e₀.iteration := by
  cases h with
  | idle | completed => rfl
  | settling hready | moving hready => exact absurd hnil hready
  | failed hfails => exact absurd hnil hfails.1

theorem Amid.eq_of_idle (h : Amid e₀ e) (hidle : e.stage = .idle) : e = e₀ := by
  cases h with
  | idle => rfl
  | settling | moving | completed => cases hidle
  | failed _ _ hstage => rw [hidle] at hstage; cases hstage

theorem Amid.of_settling {ready settled : List NodeId} {promise : NodeId → Option (Except NodeError Output)}
    {failures : List String} (h : Amid e₀ e) (hidle : e₀.stage = .idle)
    (hstage : e.stage = .settling ready promise settled failures) : e.iteration = e₀.iteration + 1 ∧ ready = e₀.ready := by
  cases h with
  | idle => rw [hidle] at hstage; cases hstage
  | settling => cases hstage; exact ⟨rfl, rfl⟩
  | moving | completed => cases hstage
  | failed _ _ hended => rw [hended] at hstage; cases hstage

theorem Amid.of_ended {outcome : Outcome} (h : Amid e₀ e) (hidle : e₀.stage = .idle) (hstage : e.stage = .ended outcome) :
    (outcome = .completed ∧ e₀.ready = [] ∧ e.iteration = e₀.iteration ∧ e.graph = e₀.graph) ∨
      ∃ message, outcome = .failed message ∧ e₀.Fails ∧ e.iteration = e₀.iteration + 1 := by
  cases h with
  | idle => rw [hidle] at hstage; cases hstage
  | settling | moving => cases hstage
  | completed hready => cases hstage; exact Or.inl ⟨rfl, hready, rfl, rfl⟩
  | failed hfails hiteration hended => exact Or.inr ⟨_, Stage.ended.inj (hstage.symm.trans hended), hfails, hiteration⟩

/-- Within an iteration, activations are settled, or outputs are moved, with no relay among what is left to do. -/
theorem Amid.stage_cases (h : Amid e₀ e) (hidle : e₀.stage = .idle) :
    e.stage = .idle ∨ e.stage.settled? ≠ none ∨
      (∃ agenda, e.stage = .moving agenda ∧ (agenda.work = [] ∨ ∃ id, agenda.work = [.propagate id 0])) ∨
        ∃ outcome, e.stage = .ended outcome := by
  cases h with
  | idle => exact Or.inl hidle
  | settling => exact Or.inr (Or.inl (Option.some_ne_none _))
  | moving _ _ _ _ _ hagenda =>
    refine Or.inr (Or.inr (Or.inl ⟨_, rfl, ?_⟩))
    rcases hagenda with rfl | ⟨id, rest, -, rfl⟩
    · exact Or.inl rfl
    · exact Or.inr ⟨id, rfl⟩
  | completed => exact Or.inr (Or.inr (Or.inr ⟨_, rfl⟩))
  | failed _ _ hstage => exact Or.inr (Or.inr (Or.inr ⟨_, hstage⟩))

/-- A course goes on by an iteration that does not fail, and does not come to the same number again. -/
theorem further (h : Relation.TransGen Passes e e') : e.iteration < e'.iteration ∧ ∃ e₁, e.Passes e₁ := by
  induction h using Relation.TransGen.head_induction_on with
  | single hp =>
    refine ⟨?_, _, hp⟩
    obtain ⟨-, -, order, graph, -, -, rfl⟩ := hp
    exact Nat.lt_succ_self _
  | head hp _ ih =>
    refine ⟨lt_trans ?_ ih.1, _, hp⟩
    obtain ⟨-, -, order, graph, -, -, rfl⟩ := hp
    exact Nat.lt_succ_self _

/-- What two courses have in common at any two moments. -/
structure Even (s : Supply) (e e' : Essence) : Prop where
  /-- Between the same iterations, they are alike. -/
  idle (hstage : e.stage = .idle) (hstage' : e'.stage = .idle) (hiteration : e'.iteration = e.iteration) : e.Alike s e'
  /-- In the same iteration, the same nodes take part. -/
  settling {ready ready' settled settled' : List NodeId} {promise promise' : NodeId → Option (Except NodeError Output)}
    {failures failures' : List String} (hstage : e.stage = .settling ready promise settled failures)
    (hstage' : e'.stage = .settling ready' promise' settled' failures') (hiteration : e'.iteration = e.iteration) :
    ready.Perm ready'
  /-- They come to the same kind of end after the same number of iterations. -/
  ended {outcome outcome' : Outcome} (hstage : e.stage = .ended outcome) (hstage' : e'.stage = .ended outcome') :
    e'.iteration = e.iteration ∧ (outcome = .completed ∧ outcome' = .completed ∧ e.graph.Shuffled s e'.graph ∨
      ∃ message message', outcome = .failed message ∧ outcome' = .failed message')
  /-- The second one does not get further than the first one at its end, nor through an iteration in which that one fails. -/
  last {outcome : Outcome} (hstage : e.stage = .ended outcome) :
    e'.iteration ≤ e.iteration ∧ (e'.iteration = e.iteration → e'.stage = .idle → outcome = .completed)

/-- In an iteration that one of two courses gets through, the other one does not end. -/
theorem Alike.not_ended {e₁ f : Essence} {outcome : Outcome} (h : e₀.Alike s e₁) (hidle : e₀.stage = .idle)
    (hamid : Amid e₀ e) (hfurther : Relation.TransGen Passes e₁ f) : e.stage ≠ .ended outcome := by
  intro hstage
  obtain ⟨-, k, hp⟩ := further hfurther
  rcases hamid.of_ended hidle hstage with ⟨-, hnil, -⟩ | ⟨-, -, hfails, -⟩
  · refine hp.1 (List.eq_nil_iff_forall_not_mem.2 fun id hid => ?_)
    exact List.not_mem_nil (hnil ▸ (h.mem_ready id).1 hid)
  · exact h.symm.not_fails hp hfails

/-- **Two courses that begin alike stay even**, wherever they have got to. -/
theorem Alike.even {f f' : Essence} (h : e.Alike s e') (hf : Relation.ReflTransGen Passes e f)
    (hf' : Relation.ReflTransGen Passes e' f') (hidle : f.stage = .idle) (hidle' : f'.stage = .idle) (ha : Amid f e₀)
    (ha' : Amid f' e₁) : e₀.Even s e₁ := by
  have hbefore := ha.iteration
  have hbefore' := ha'.iteration
  rcases h.courses hf hf' with hlike | ⟨k, hlike, hfurther⟩ | ⟨k, hlike, hfurther⟩
  · -- Both stand in the same iteration.
    have hsame := hlike.iteration
    refine ⟨fun hstage hstage' _ => ?_, fun hstage hstage' _ => ?_, fun hstage hstage' => ?_, fun hstage => ?_⟩
    · rwa [ha.eq_of_idle hstage, ha'.eq_of_idle hstage']
    · rw [(ha.of_settling hidle hstage).2, (ha'.of_settling hidle' hstage').2]
      exact hlike.ready_perm
    · rcases ha.of_ended hidle hstage with ⟨rfl, hnil, hiteration, hgraph⟩ | ⟨message, rfl, hfails, hiteration⟩ <;>
        rcases ha'.of_ended hidle' hstage' with ⟨rfl, hnil', hiteration', hgraph'⟩ | ⟨message', rfl, hfails', hiteration'⟩
      · rw [hiteration, hiteration', hgraph, hgraph']
        exact ⟨hsame, Or.inl ⟨rfl, rfl, hlike.graph⟩⟩
      · exact absurd (List.perm_nil.1 (hnil ▸ hlike.ready_perm.symm)) hfails'.1
      · exact absurd (List.nil_perm.1 (hnil' ▸ hlike.ready_perm.symm)) hfails.1
      · exact ⟨by omega, Or.inr ⟨message, message', rfl, rfl⟩⟩
    · rcases ha.of_ended hidle hstage with ⟨rfl, hnil, hiteration, -⟩ | ⟨message, rfl, -, hiteration⟩
      · refine ⟨?_, fun _ _ => rfl⟩
        rw [hiteration, ← hsame, ha'.iteration_of_nil (List.perm_nil.1 (hnil ▸ hlike.ready_perm.symm))]
      · refine ⟨by omega, fun heq hstage' => ?_⟩
        rw [ha'.eq_of_idle hstage'] at heq
        omega
  · -- The second one is ahead.
    have hsame := hlike.iteration
    have hlt := (further hfurther).1
    have hopen : ∀ {outcome}, e₀.stage ≠ .ended outcome := hlike.not_ended hidle ha hfurther
    refine ⟨fun hstage _ heq => ?_, fun hstage hstage' heq => ?_, fun hstage => absurd hstage hopen, fun hstage =>
      absurd hstage hopen⟩
    · rw [ha.eq_of_idle hstage] at heq
      omega
    · have hnext := (ha.of_settling hidle hstage).1
      have hnext' := (ha'.of_settling hidle' hstage').1
      omega
  · -- The first one is ahead.
    have hsame := hlike.iteration
    have hlt := (further hfurther).1
    have hopen : ∀ {outcome}, e₁.stage ≠ .ended outcome := hlike.symm.not_ended hidle' ha' hfurther
    refine ⟨fun _ hstage' heq => ?_, fun hstage hstage' heq => ?_, fun _ hstage' => absurd hstage' hopen, fun hstage => ?_⟩
    · rw [ha'.eq_of_idle hstage'] at heq
      omega
    · have hnext := (ha.of_settling hidle hstage).1
      have hnext' := (ha'.of_settling hidle' hstage').1
      omega
    · refine ⟨by omega, fun heq hstage' => ?_⟩
      rw [ha'.eq_of_idle hstage'] at heq
      omega

end Essence

namespace Run

variable {silent : Bool} {d : Nat} {r r' : Run}

/-- **Each step of a run makes steps of what matters of it**, whichever activation is settled next. -/
theorem Upright.goes (h : r.Upright silent d) {signal : Signal} (hs : r.step? signal = some r')
    (hc : r'.executor.cancelled = false) : Relation.ReflTransGen Essence.Goes r.essence r'.essence := by
  have hleads := (h.advances hs hc (t := ⟨d, _⟩) rfl (inOrder_settled r')).leads
  have hsettled : ∀ {r : Run} {batch : Batch}, r.phase = .activating batch → r.essence.stage.settled? ≠ none := by
    intro r batch hp
    rw [essence_eq hp]
    exact Option.some_ne_none _
  have hunsettled : ∀ {r : Run}, r.phase.isActivating = false → r.essence.stage.settled? = none := fun {r} hp => by
    unfold essence
    cases hphase : r.phase with
    | activating batch => rw [hphase] at hp; cases hp
    | _ => rfl
  by_cases hboundary : r.phase = .boundary
  · rcases boundary_step hboundary hs with ⟨hsteady, -⟩ | ⟨hiteration, -⟩ | ⟨batch, hp', -, -, hiteration, -⟩
    · exact hleads.goes_past hsteady.iteration (hunsettled (by rw [hboundary]; rfl))
    · exact hleads.goes_past hiteration (hunsettled (by rw [hboundary]; rfl))
    · refine hleads.goes_begun ?_ hiteration (hsettled hp')
      rw [essence, hboundary]
      rfl
  · have hiteration := (steady_step hboundary hs).iteration
    cases hactivating : r.phase.isActivating with
    | false => exact hleads.goes_past hiteration (hunsettled hactivating)
    | true =>
      obtain ⟨batch, hp⟩ := Phase.isActivating_iff.1 hactivating
      rcases activating_step h.tidy.hosts.isNamed hp (uncancelled_step hs hc) hs with ⟨batch', hp', -⟩ | ⟨-, hpending, rfl⟩
      · exact hleads.goes_settling hiteration (hsettled hp')
      · -- All activations are settled, so that nothing is promised any more.
        obtain ⟨hrest, hfinished⟩ := List.append_eq_nil_iff.1 hpending
        obtain ⟨hrun, hasleep⟩ := List.append_eq_nil_iff.1 hrest
        rw [List.map_eq_nil_iff] at hrun hasleep hfinished
        have hresults : batch.results = [] := by simp [Batch.results, Batch.pledges, promises, hfinished, hrun, hasleep]
        refine hleads.goes_barrier (by rw [essence_eq hp]; rfl) (fun id => ?_) hiteration
          (hunsettled (isActivating_passBarrier r batch))
        rw [hresults, Table.find?_nil]

theorem Upright.goes_follow (h : r.Upright silent d) {signals : List Signal} (hf : r.follow signals = some r')
    (hc : r'.executor.cancelled = false) : Relation.ReflTransGen Essence.Goes r.essence r'.essence := by
  induction signals generalizing r with
  | nil => cases hf; exact .refl
  | cons signal rest ih =>
    obtain ⟨r₁, hs, hf⟩ := Option.bind_eq_some_iff.1 hf
    have hc₁ := uncancelled_follow hf hc
    exact (h.goes hs hc₁).trans (ih (h.step hs hc₁).1 hf)

/-- **A run without relays has gone through some iterations**, and stands in the one after them. -/
theorem Upright.course {s : Supply} (h : r.Upright silent d) (hrest : r.essence.Resting s) {signals : List Signal}
    (hf : r.follow signals = some r') (hc : r'.executor.cancelled = false) :
    ∃ e, Relation.ReflTransGen Essence.Passes r.essence e ∧ e.Resting s ∧ e.Amid r'.essence :=
  hrest.course (h.goes_follow hf hc)

end Run

end Dataflow
