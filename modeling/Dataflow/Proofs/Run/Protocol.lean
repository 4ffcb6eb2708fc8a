import Dataflow.Proofs.Run.Moves
import Dataflow.Proofs.Run.Ports

/-!
# When inputs are consumed and cleared

A node is *open* from the moment its inputs are consumed until they are cleared.

* `Graph.Permits` says which acts may come while some nodes are open: nothing is offered then, a node is
  not prepared twice, and no other node is cleared;
* `Orderly` says that a list of acts keeps to this from beginning to end;
* `Run.Leads.orderly`: the acts of every run do;
* `Orderly.prepared_of_mem`, `Orderly.clear_of_notMem`, `Orderly.notMem_clear`: where the clearing of a node
  stands between its activations.
-/

namespace Dataflow

/-- An act that may come while the nodes `s` are open, and the nodes that are open after it. -/
inductive Graph.Permits (g : Graph) : Act → Set NodeId → Set NodeId → Prop
  | prepare {n : Node} {s : Set NodeId} (iteration : Nat) (context : Context) (hn : g.node? n.id = some n)
      (hs : n.id ∉ s) : Permits g (.prepare (n.activation n.prepare.1 iteration context)) s (insert n.id s)
  | clear {id : NodeId} {s : Set NodeId} (hs : id ∈ s) : Permits g (.clear id) s (s \ {id})
  | offer (o : Offer) : Permits g (.offer o) ∅ ∅
  | neutral {act : Act} {s : Set NodeId} (hact : act.isNeutral = true) : Permits g act s s

/-- Acts that come in order, from the nodes that are open before them to those that are open after them. -/
inductive Orderly : Graph → Set NodeId → List Act → Set NodeId → Prop
  | nil (g : Graph) (s : Set NodeId) : Orderly g s [] s
  | cons {g : Graph} {s s' s'' : Set NodeId} {act : Act} {acts : List Act} (h : g.Permits act s s')
      (hrest : Orderly (g.enact act) s' acts s'') : Orderly g s (act :: acts) s''

namespace Orderly

variable {g : Graph} {s s' s'' : Set NodeId} {acts acts' : List Act} {id : NodeId}

theorem append (h : Orderly g s acts s') (h' : Orderly (g.replay acts) s' acts' s'') :
    Orderly g s (acts ++ acts') s'' := by
  induction h with
  | nil => exact h'
  | cons hp _ ih => exact .cons hp (ih h')

theorem split (h : Orderly g s (acts ++ acts') s'') :
    ∃ s', Orderly g s acts s' ∧ Orderly (g.replay acts) s' acts' s'' := by
  induction acts generalizing g s with
  | nil => exact ⟨s, .nil g s, h⟩
  | cons act acts ih =>
    cases h with
    | cons hp hrest =>
      obtain ⟨s', hbefore, hafter⟩ := ih hrest
      exact ⟨s', .cons hp hbefore, hafter⟩

theorem neutrals (h : ∀ act ∈ acts, act.isNeutral = true) : Orderly g s acts s := by
  induction acts generalizing g with
  | nil => exact .nil g s
  | cons act acts ih =>
    obtain ⟨hact, hrest⟩ := List.forall_mem_cons.1 h
    exact .cons (.neutral hact) (ih hrest)

theorem offering (offers : List Offer) : Orderly g ∅ (g.offering offers) ∅ := by
  induction offers generalizing g with
  | nil => exact .nil g ∅
  | cons o rest ih =>
    unfold Graph.offering
    refine .cons (.offer o) ?_
    split
    · exact .nil _ ∅
    · exact ih

theorem moving (id : NodeId) : Orderly g ∅ (g.moving id) ∅ := by
  have hoffers : Orderly g ∅ (.take id :: (g.take id).offering ((g.take id).offers (g.taken id))) ∅ :=
    .cons (.neutral rfl) (offering _)
  refine hoffers.append (neutrals fun act hact => ?_)
  split_ifs at hact
  · exact absurd hact List.not_mem_nil
  · rw [List.mem_singleton.1 hact]
    rfl

/-- Open nodes are cleared one after the other. -/
theorem clears {ids : List NodeId} (hn : ids.Nodup) : Orderly g {id | id ∈ ids} (ids.map .clear) ∅ := by
  induction ids generalizing g with
  | nil => simpa using Orderly.nil g ∅
  | cons id rest ih =>
    obtain ⟨hid, hrest⟩ := List.nodup_cons.1 hn
    refine .cons (.clear List.mem_cons_self) ?_
    have hset : {i | i ∈ id :: rest} \ {id} = {i | i ∈ rest} := by
      ext i
      simp only [List.mem_cons, Set.mem_sdiff, Set.mem_ofPred_eq, Set.mem_singleton_iff]
      exact ⟨fun h => h.1.resolve_left h.2, fun h => ⟨Or.inr h, fun e => hid (e ▸ h)⟩⟩
    rw [hset]
    exact ih hrest

/-- The activations of an iteration begin. -/
theorem preparing {ids : List NodeId} (hg : g.Identified) (hn : ids.Nodup) (hnodes : ∀ id ∈ ids, (g.node? id).isSome)
    (hs : ∀ id ∈ ids, id ∉ s) (iteration : Nat) (context : Context) :
    Orderly g s (Run.preparing iteration context ids g) (s ∪ {id | id ∈ ids}) := by
  induction ids generalizing g s with
  | nil =>
    rw [show s ∪ {id | id ∈ ([] : List NodeId)} = s by simp]
    exact .nil g s
  | cons id rest ih =>
    obtain ⟨hid, hrest⟩ := List.nodup_cons.1 hn
    obtain ⟨hnode, hlater⟩ := List.forall_mem_cons.1 hnodes
    obtain ⟨hopen, hclosed⟩ := List.forall_mem_cons.1 hs
    obtain ⟨n, hnode⟩ := Option.isSome_iff_exists.1 hnode
    obtain rfl := hg.named hnode
    have henact : g.enact (.prepare (n.activation n.prepare.1 iteration context)) = g.setNode n.prepare.2 :=
      Graph.modifyNode_of_some hnode _
    unfold Run.preparing
    rw [hnode]
    refine .cons (.prepare iteration context hnode hopen) ?_
    rw [← henact]
    have hset : s ∪ {i | i ∈ n.id :: rest} = insert n.id s ∪ {i | i ∈ rest} := by
      ext i
      simp only [List.mem_cons, Set.mem_union, Set.mem_ofPred_eq, Set.mem_insert_iff]
      tauto
    rw [hset]
    refine ih (hg.enact _) hrest (fun id' h => ?_) fun id' h => ?_
    · rw [henact, Graph.node?_setNode]
      split_ifs
      · rfl
      · exact hlater id' h
    · rw [Set.mem_insert_iff, not_or]
      exact ⟨fun e => hid (e ▸ h), hclosed id' h⟩

theorem prepare_inv {a : Activation} (h : Orderly g s (.prepare a :: acts) s') :
    a.node ∉ s ∧ (∃ n iteration context, g.node? n.id = some n ∧ a = n.activation n.prepare.1 iteration context) ∧
      Orderly (g.enact (.prepare a)) (insert a.node s) acts s' := by
  cases h with
  | cons hp hrest =>
    cases hp with
    | prepare iteration context hn hs => exact ⟨hs, ⟨_, iteration, context, hn, rfl⟩, hrest⟩
    | neutral hact => cases hact

theorem clear_inv (h : Orderly g s (.clear id :: acts) s') : id ∈ s := by
  cases h with
  | cons hp _ =>
    cases hp with
    | clear hs => exact hs
    | neutral hact => cases hact

theorem offer_inv {o : Offer} (h : Orderly g s (.offer o :: acts) s') :
    s = ∅ ∧ Orderly (g.enact (.offer o)) ∅ acts s' := by
  cases h with
  | cons hp hrest =>
    cases hp with
    | offer => exact ⟨rfl, hrest⟩
    | neutral hact => cases hact

/-! ### Between activations of a node -/

/-- An open node was prepared, and since then nothing was offered, and it was neither prepared again nor
cleared. -/
theorem prepared_of_mem (h : Orderly g s acts s') (hid : id ∈ s') :
    (id ∈ s ∧ ∀ act ∈ acts, (∀ o, act ≠ .offer o) ∧ (∀ a, act = .prepare a → a.node ≠ id)) ∨
      ∃ before a after, acts = before ++ .prepare a :: after ∧ a.node = id ∧
        ∀ act ∈ after, (∀ o, act ≠ .offer o) ∧ (∀ a, act = .prepare a → a.node ≠ id) := by
  induction h with
  | nil => exact Or.inl ⟨hid, fun _ h => absurd h List.not_mem_nil⟩
  | @cons g s s' s'' act acts hp _ ih =>
    rcases ih hid with ⟨hid', hrest⟩ | ⟨before, a, after, rfl, hnode, hafter⟩
    · cases hp with
      | @prepare n _ iteration context hn hs =>
        by_cases heq : id = n.id
        · exact Or.inr ⟨[], _, acts, rfl, heq.symm, hrest⟩
        · refine Or.inl ⟨(Set.mem_insert_iff.1 hid').resolve_left heq, List.forall_mem_cons.2 ⟨⟨by simp, ?_⟩, hrest⟩⟩
          intro a ha
          cases ha
          exact Ne.symm heq
      | clear hs => exact Or.inl ⟨hid'.1, List.forall_mem_cons.2 ⟨⟨by simp, by simp⟩, hrest⟩⟩
      | offer o => exact absurd hid' (Set.notMem_empty id)
      | neutral hact =>
        refine Or.inl ⟨hid', List.forall_mem_cons.2 ⟨⟨?_, ?_⟩, hrest⟩⟩
        · rintro o rfl; cases hact
        · rintro a rfl; cases hact
    · exact Or.inr ⟨act :: before, a, after, rfl, hnode, hafter⟩

/-- A node that is not open any more was cleared. -/
theorem clear_of_notMem (h : Orderly g s acts s') (hid : id ∈ s) (hid' : id ∉ s') : .clear id ∈ acts := by
  induction h with
  | nil => exact absurd hid hid'
  | @cons g s s' s'' act acts hp _ ih =>
    cases hp with
    | prepare _ _ _ _ => exact List.mem_cons_of_mem _ (ih (Set.mem_insert_of_mem _ hid) hid')
    | @clear id₁ _ hs =>
      by_cases heq : id = id₁
      · rw [heq]; exact List.mem_cons_self
      · exact List.mem_cons_of_mem _ (ih ⟨hid, heq⟩ hid')
    | offer o => exact absurd hid (Set.notMem_empty id)
    | neutral _ => exact List.mem_cons_of_mem _ (ih hid hid')

/-- A node that is not open is not cleared before it is prepared. -/
theorem notMem_clear (h : Orderly g s acts s') (hid : id ∉ s) (hacts : ∀ a, .prepare a ∈ acts → a.node ≠ id) :
    .clear id ∉ acts := by
  induction h with
  | nil => exact List.not_mem_nil
  | @cons g s s' s'' act acts hp _ ih =>
    have hrest : ∀ a, .prepare a ∈ acts → a.node ≠ id := fun a ha => hacts a (List.mem_cons_of_mem _ ha)
    have hstep : act ≠ .clear id ∧ id ∉ s' := by
      cases hp with
      | prepare iteration context _ _ =>
        refine ⟨by simp, ?_⟩
        rw [Set.mem_insert_iff, not_or]
        exact ⟨Ne.symm (hacts _ List.mem_cons_self), hid⟩
      | clear hs =>
        refine ⟨?_, fun h => hid h.1⟩
        rintro h
        cases h
        exact hid hs
      | offer o => exact ⟨by simp, hid⟩
      | neutral hact =>
        refine ⟨?_, hid⟩
        rintro rfl
        cases hact
    rw [List.mem_cons, not_or]
    exact ⟨Ne.symm hstep.1, ih hstep.2 hrest⟩

end Orderly

namespace Run

/-- The nodes that are open in a phase. When a run is over, any may be left. -/
def Opens (s : Set NodeId) : Phase → Prop
  | .activating batch => batch.ready.Nodup ∧ s = {id | id ∈ batch.ready}
  | .relaying relay _ _ => s = {relay.task.node}
  | .ending _ | .over _ | .broken _ => True
  | _ => s = ∅

theorem opens_of_isIdle {s : Set NodeId} {p : Phase} (hp : p.isIdle = true) : Opens s p ↔ s = ∅ := by
  cases p <;> first | exact Iff.rfl | cases hp

theorem opens_of_isOver {s : Set NodeId} {p : Phase} (hp : p.isOver = true) : Opens s p := by
  cases p <;> trivial

/-- The activation of a relay that is open goes on, and may end. -/
theorem orderly_carried {node : NodeId} {depth : Nat} {agenda : Agenda} {g : Graph} {acts : List Act} {p : Phase}
    (h : Carried node depth agenda g acts p) : ∃ s, Orderly g {node} acts s ∧ Opens s p := by
  have hmemories : ∀ memories : List Memory, ∀ act ∈ memories.map (Act.remember node), act.isNeutral = true := by
    intro memories act hact
    obtain ⟨memory, -, rfl⟩ := List.mem_map.1 hact
    rfl
  cases h with
  | asleep hnode => exact ⟨{node}, .neutrals (hmemories _), by rw [← hnode]; rfl⟩
  | broken => exact ⟨{node}, .neutrals (hmemories _), trivial⟩
  | failed =>
    refine ⟨{node}, .append (.neutrals (hmemories _)) (.neutrals fun act hact => ?_), trivial⟩
    rw [List.mem_singleton.1 hact]
    rfl
  | settled hok =>
    refine ⟨∅, .append (.neutrals (hmemories _)) (.cons (.neutral rfl) ?_), rfl⟩
    simpa using Orderly.clears (List.nodup_singleton node)

theorem orderly_step {r r' : Run} {signal : Signal} {s : Set NodeId} (hg : r.graph.Identified)
    (h : r.step? signal = some r') (hs : Opens s r.phase) :
    ∃ s', Orderly r.graph s (r.acts signal) s' ∧ Opens s' r'.phase := by
  have hm := step_moves hg.isNamed h
  generalize r.acts signal = acts at hm
  generalize r'.phase = p at hm
  cases hm with
  | wait => exact ⟨s, .nil _ s, hs⟩
  | turn hp hp' =>
    refine ⟨s, .nil _ s, ?_⟩
    rcases Bool.or_eq_true_iff.1 hp' with hidle | hover
    · exact (opens_of_isIdle hidle).2 ((opens_of_isIdle hp).1 hs)
    · exact opens_of_isOver hover
  | report => exact ⟨s, .nil _ s, trivial⟩
  | @begin ready fired tasks hp hready _ =>
    rw [hp] at hs
    obtain rfl : s = ∅ := hs
    have hn : ready.Nodup := by
      have := nodup_collectReady hg r.firedSources
      rwa [hready] at this
    refine ⟨_, .preparing hg hn (fun id hid => ?_) (fun _ _ => Set.notMem_empty _) _ _, hn, Set.empty_union _⟩
    have hmem : id ∈ (collectReady r.graph r.graph.nodeList r.firedSources).1 := by rw [hready]; exact hid
    obtain ⟨n, hn, rfl⟩ := mem_collectReady hmem
    rw [(Graph.mem_nodeList hg).1 hn]
    rfl
  | @run batch batch' node memories hp hready _ _ _ =>
    rw [hp] at hs
    refine ⟨s, .neutrals fun act hact => ?_, ?_⟩
    · obtain ⟨memory, -, rfl⟩ := List.mem_map.1 hact
      rfl
    · show batch'.ready.Nodup ∧ s = {id | id ∈ batch'.ready}
      rw [hready]
      exact hs
  | settle hp _ _ =>
    rw [hp] at hs
    refine ⟨s, .neutrals fun act hact => ?_, hs⟩
    rw [List.mem_singleton.1 hact]
    rfl
  | pass hp _ _ =>
    rw [hp] at hs
    obtain ⟨hn, rfl⟩ := hs
    exact ⟨∅, .clears hn, rfl⟩
  | move hp _ =>
    rw [hp] at hs
    obtain rfl : s = ∅ := hs
    exact ⟨∅, .moving _, rfl⟩
  | skip hp _ =>
    rw [hp] at hs
    exact ⟨s, .nil _ s, hs⟩
  | @relay n depth work origins acts p hp hn _ _ hcarry =>
    rw [hp] at hs
    obtain rfl : s = ∅ := hs
    obtain ⟨s', horderly, hopens⟩ := orderly_carried hcarry
    refine ⟨s', .cons (.prepare _ _ hn (Set.notMem_empty _)) ?_, hopens⟩
    simpa using horderly
  | resume hp hcarry =>
    rw [hp] at hs
    obtain rfl := hs
    exact orderly_carried hcarry
  | next hp =>
    rw [hp] at hs
    exact ⟨s, .nil _ s, hs⟩
  | finish hp hp' =>
    rw [hp] at hs
    exact ⟨s, .nil _ s, (opens_of_isIdle hp').2 hs⟩
  | giveUp h =>
    rcases h.acts_eq with ⟨ids, rfl⟩ | ⟨id, depth, work, origins, hp, rfl⟩
    · refine ⟨s, .neutrals fun act hact => ?_, trivial⟩
      obtain ⟨id, -, rfl⟩ := List.mem_map.1 hact
      rfl
    · rw [hp] at hs
      obtain rfl : s = ∅ := hs
      exact ⟨∅, .moving id, trivial⟩

/-- **The acts of every run come in order.** -/
theorem Leads.orderly {r r' : Run} {acts : List Act} {s : Set NodeId} (hg : r.graph.Identified) (h : Leads r acts r')
    (hs : Opens s r.phase) : ∃ s', Orderly r.graph s acts s' ∧ Opens s' r'.phase := by
  induction h with
  | refl => exact ⟨s, .nil _ s, hs⟩
  | step hlead hstep ih =>
    obtain ⟨s₁, horderly, hopens⟩ := ih
    obtain ⟨s₂, hnext, hopens'⟩ := orderly_step (hlead.identified hg) hstep hopens
    rw [hlead.graph hg] at hnext
    exact ⟨s₂, horderly.append hnext, hopens'⟩

end Run

end Dataflow
