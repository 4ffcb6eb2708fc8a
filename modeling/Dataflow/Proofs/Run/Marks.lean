import Dataflow.Proofs.Run.Moves
import Mathlib.Data.Option.Basic

/-!
# What acts leave of a node

However a graph is run, its nodes stay in their places with their labels and behaviors, and only a few acts mark a node.

* `Node.Kept` is what an act leaves of a node, and `Graph.kept_enact` says that every act does;
* `Graph.labelOf` is the label of a node, which never changes;
* `Graph.isRelay` says that a node is direct-through, which never changes, and `Graph.isRelay_transferOutputs` that only
  such nodes are reported as reached;
* `Graph.status?` is the status of a node, `Graph.marked` what an act makes of it: a node is marked when its activation
  begins, when it has ended, and when it is given up.
-/

namespace Dataflow

/-- The status of a node that has answered to the end of its activation. -/
def NodeStatus.ofAnswer : Except NodeError Unit → NodeStatus
  | .ok () => success
  | .error _ => failed

/-- Acts that mark a node. -/
def Act.isMark : Act → Bool
  | .prepare _ | .settle .. | .reset _ => true
  | _ => false

namespace Node

/-- What an act leaves of a node, and what it makes of its status. -/
structure Kept (mark : NodeStatus → NodeStatus) (n n' : Node) : Prop where
  id : n'.id = n.id
  label : n'.label = n.label
  behavior : n'.behavior = n.behavior
  status : n'.status = mark n.status

theorem Kept.refl (n : Node) : Kept (fun s => s) n n :=
  ⟨rfl, rfl, rfl, rfl⟩

theorem Kept.trans {mark : NodeStatus → NodeStatus} {n n' n'' : Node} (h : Kept (fun s => s) n n') (h' : Kept mark n' n'') :
    Kept mark n n'' :=
  ⟨h'.id.trans h.id, h'.label.trans h.label, h'.behavior.trans h.behavior, h'.status.trans (congrArg mark h.status)⟩

theorem kept_setPort (n : Node) (slot : Slot) (p : Port) : Kept (fun s => s) n (n.setPort slot p) := by
  cases slot <;> exact ⟨rfl, rfl, rfl, rfl⟩

theorem kept_writeOutput (n : Node) (output : Output) (s : Supply) : Kept (fun s => s) n (n.writeOutput output s).2.1 := by
  unfold writeOutput
  split
  · exact ⟨rfl, rfl, rfl, rfl⟩
  · split
    · exact ⟨rfl, rfl, rfl, rfl⟩
    · split <;> exact ⟨rfl, rfl, rfl, rfl⟩

theorem kept_complete (n : Node) (result : Except NodeError Output) (s : Supply) :
    Kept (fun _ => .ofAnswer (n.complete result s).1) n (n.complete result s).2.1 := by
  unfold complete
  cases result with
  | error e => exact ⟨rfl, rfl, rfl, rfl⟩
  | ok output =>
    have hkept := n.kept_writeOutput output s
    dsimp only
    split <;> rename_i hwrite <;> rw [hwrite] at hkept <;> exact ⟨hkept.id, hkept.label, hkept.behavior, rfl⟩

end Node

namespace Graph

variable {g : Graph}

theorem kept_takeUnread (ports : List PortId) (n : Node) : n.Kept (fun s => s) (takeUnread ports n).2 := by
  induction ports generalizing n with
  | nil => exact .refl n
  | cons p rest ih =>
    unfold takeUnread
    split
    · exact ih n
    · rename_i port _
      split_ifs
      · refine Node.Kept.trans ?_ (ih ((n.replacePort? p port.read.2).getD n))
        cases hr : n.replacePort? p port.read.2 with
        | none => exact .refl n
        | some n' =>
          obtain ⟨slot, -, top, -, -, rfl⟩ := Node.replacePort?_eq_some hr
          exact n.kept_setPort slot top
      · exact ih n

/-- What an act makes of the status of a node. -/
def marked (g : Graph) (id : NodeId) : Act → NodeStatus → NodeStatus
  | .prepare a, s => if a.node = id then .executing else s
  | .settle k result, s => if k = id then .ofAnswer (g.completion k result) else s
  | .reset k, s => if k = id then .idle else s
  | .remember .., s | .clear _, s | .take _, s | .offer _, s | .publish .., s => s

theorem marked_of_isMark {act : Act} (h : act.isMark = false) (id : NodeId) : g.marked id act = fun s => s := by
  cases act <;> first | rfl | cases h

/-! ### Nodes stay in their places -/

theorem kept_refl (o : Option Node) : Option.Rel (Node.Kept fun s => s) o o := by
  cases o with
  | none => exact .none
  | some n => exact .some (.refl n)

theorem kept_evolve (hg : g.Named) {k : NodeId} {n n' : Node} {mark : NodeStatus → NodeStatus} (hn : g.node? k = some n)
    (h : n.Kept mark n') (s' : Supply) (id : NodeId) :
    Option.Rel (Node.Kept fun s => if k = id then mark s else s) (g.node? id) ((g.evolve n' s').node? id) := by
  rw [node?_evolve, h.id, hg k n hn]
  split_ifs with he
  · rw [← he, hn]
    exact .some h
  · exact kept_refl _

theorem kept_modifyNode (hg : g.Named) (f : Node → Node) (mark : NodeStatus → NodeStatus) (h : ∀ n : Node, n.Kept mark (f n))
    (k id : NodeId) :
    Option.Rel (Node.Kept fun s => if k = id then mark s else s) (g.node? id) ((g.modifyNode k f).node? id) := by
  cases hk : g.node? k with
  | none =>
    rw [modifyNode_of_none hk]
    split_ifs with he
    · rw [← he, hk]
      exact .none
    · exact kept_refl _
  | some n =>
    rw [modifyNode_of_some hk]
    exact kept_evolve hg hk (h n) g.supply id

/-- **An act keeps each node in its place**, and may mark it. -/
theorem kept_enact (hg : g.Named) (act : Act) (id : NodeId) :
    Option.Rel (Node.Kept (g.marked id act)) (g.node? id) ((g.enact act).node? id) := by
  cases act with
  | prepare a => exact kept_modifyNode hg (fun n => n.prepare.2) (fun _ => .executing) (fun _ => ⟨rfl, rfl, rfl, rfl⟩) a.node id
  | remember k memory =>
    have h := kept_modifyNode hg (fun n => { n with memory }) (fun s => s) (fun _ => ⟨rfl, rfl, rfl, rfl⟩) k id
    simp only [ite_self] at h
    exact h
  | reset k => exact kept_modifyNode hg Node.resetStatus (fun _ => .idle) (fun _ => ⟨rfl, rfl, rfl, rfl⟩) k id
  | clear k =>
    have h := kept_modifyNode hg Node.clearInputs (fun s => s) (fun _ => ⟨rfl, rfl, rfl, rfl⟩) k id
    rw [enact, node?_reindex]
    simp only [ite_self] at h
    exact h
  | settle k result =>
    change Option.Rel (Node.Kept fun s => if k = id then .ofAnswer (g.completion k result) else s) (g.node? id)
      ((g.settle k result).node? id)
    cases hk : g.node? k with
    | none =>
      simp only [settle, hk]
      by_cases he : k = id
      · rw [← he, hk]
        exact .none
      · simp only [he, if_false]
        exact kept_refl _
    | some n =>
      simp only [settle, completion, hk]
      rw [node?_reindex]
      exact kept_evolve hg hk (n.kept_complete result g.supply) _ id
  | take k =>
    change Option.Rel (Node.Kept fun s => s) (g.node? id) ((g.take k).node? id)
    unfold take
    cases hk : g.node? k with
    | none => exact kept_refl _
    | some n =>
      have h := kept_evolve hg hk (kept_takeUnread (g.feedingPorts n) n) g.supply id
      simp only [ite_self] at h
      exact h
  | offer o =>
    change Option.Rel (Node.Kept fun s => s) (g.node? id) ((g.enact (.offer o)).node? id)
    unfold enact
    dsimp only
    split
    · rename_i hanswer
      unfold answer? at hanswer
      split_ifs at hanswer
      obtain ⟨owner, n, n', s', -, hn, hw, rfl⟩ := write_eq_ok (Option.some.inj hanswer)
      obtain ⟨slot, top, top', -, -, rfl⟩ := Node.write_eq_ok hw
      rw [node?_reindex]
      have h := kept_evolve hg hn (n.kept_setPort slot top') s' id
      simpa only [ite_self] using h
    · exact kept_refl _
  | publish => exact kept_refl _

theorem Named.enact (hg : g.Named) (act : Act) : (g.enact act).Named := by
  intro id n' hn'
  have h := kept_enact hg act id
  rw [hn'] at h
  generalize hn : g.node? id = o at h
  cases h with
  | some hkept => exact hkept.id.trans (hg id _ hn)

theorem Named.replay (hg : g.Named) (acts : List Act) : (g.replay acts).Named := by
  induction acts generalizing g with
  | nil => exact hg
  | cons act acts ih => exact ih (hg.enact act)

/-! ### Labels -/

/-- The label of a node. -/
def labelOf (g : Graph) (id : NodeId) : String :=
  match g.node? id with
  | some n => n.label
  | none => ""

/-- The line of a failed activation. -/
def failureLine (g : Graph) (id : NodeId) (message : String) : String :=
  g.labelOf id ++ ": " ++ message

theorem labelOf_enact (hg : g.Named) (act : Act) : (g.enact act).labelOf = g.labelOf := by
  funext id
  have h := kept_enact hg act id
  unfold labelOf
  generalize g.node? id = o, (g.enact act).node? id = o' at h
  cases h with
  | some hkept => exact hkept.label
  | none => rfl

theorem labelOf_replay (hg : g.Named) (acts : List Act) : (g.replay acts).labelOf = g.labelOf := by
  induction acts generalizing g with
  | nil => rfl
  | cons act acts ih => rw [replay_cons, ih (hg.enact act), labelOf_enact hg]

/-! ### Relays -/

/-- Whether a node is direct-through. -/
def isRelay (g : Graph) (id : NodeId) : Bool :=
  (g.node? id).any Node.isDirectThrough

theorem isRelay_enact (hg : g.Named) (act : Act) (id : NodeId) : (g.enact act).isRelay id = g.isRelay id := by
  have h := kept_enact hg act id
  unfold isRelay
  generalize g.node? id = o, (g.enact act).node? id = o' at h
  cases h with
  | some hkept => simp only [Option.any_some, Node.isDirectThrough, hkept.behavior]
  | none => rfl

theorem isRelay_replay (hg : g.Named) (acts : List Act) (id : NodeId) : (g.replay acts).isRelay id = g.isRelay id := by
  induction acts generalizing g with
  | nil => rfl
  | cons act acts ih => rw [replay_cons, ih (hg.enact act), isRelay_enact hg]

/-- Only relays are reported as reached. -/
theorem isRelay_deliver {offers : List Offer} {d : Delivery} (hg : d.graph.Named)
    (h : ∀ id ∈ d.relays, d.graph.isRelay id = true) :
    ∀ id ∈ (deliver offers d).relays, d.graph.isRelay id = true := by
  induction offers generalizing d with
  | nil => exact h
  | cons o rest ih =>
    unfold deliver
    by_cases hs : d.graph.skips o.edge = true
    · rw [if_pos hs]
      exact ih hg h
    · rw [if_neg hs]
      cases hw : d.graph.write o.edge.target o.value with
      | error e => exact h
      | ok result =>
        obtain ⟨stored, g'⟩ := result
        have henact : d.graph.enact (.offer o) = g' := by simp only [enact, answer?, if_neg hs, hw]
        have hrelay : ∀ id, g'.isRelay id = d.graph.isRelay id := fun id => by rw [← henact, isRelay_enact hg]
        dsimp only
        intro id hid
        rw [← hrelay]
        refine ih (d := ⟨g', _, _, _⟩) (henact ▸ hg.enact (.offer o)) (fun id hid => ?_) id hid
        dsimp only at hid ⊢
        rw [hrelay]
        split at hid
        · rename_i relay hat
          rcases mem_insertNew.1 hid with rfl | hid
          · simp only [relayAt?, Option.bind_eq_bind, Option.bind_eq_some_iff] at hat
            obtain ⟨owner, -, n, hn, hdirect⟩ := hat
            split_ifs at hdirect with hd
            cases hdirect
            rw [← hrelay, isRelay, hn]
            exact hd
          · exact h id hid
        · exact h id hid

theorem isRelay_transferOutputs (hg : g.Named) {id relay : NodeId} (h : relay ∈ (g.transferOutputs id).relays) :
    g.isRelay relay = true := by
  rw [transferOutputs_eq] at h
  have hrelay := isRelay_deliver (d := ⟨g.take id, [], [], none⟩) (hg.enact (.take id)) (by simp) relay h
  rwa [show g.take id = g.enact (.take id) from rfl, isRelay_enact hg] at hrelay

/-! ### Statuses -/

/-- The status of a node. -/
def status? (g : Graph) (id : NodeId) : Option NodeStatus :=
  (g.node? id).map Node.status

/-- What an act makes of the status of a node. -/
theorem status?_enact (hg : g.Named) (act : Act) (id : NodeId) :
    (g.enact act).status? id = (g.status? id).map (g.marked id act) := by
  have h := kept_enact hg act id
  unfold status?
  generalize g.node? id = o, (g.enact act).node? id = o' at h
  cases h with
  | some hkept => simp only [Option.map_some, hkept.status]
  | none => rfl

theorem status?_enact_unmarking (hg : g.Named) {act : Act} (h : act.isMark = false) (id : NodeId) :
    (g.enact act).status? id = g.status? id := by
  rw [status?_enact hg, marked_of_isMark h, Option.map_id']

theorem status?_settle (hg : g.Named) (k : NodeId) (result : Except NodeError Output) (id : NodeId) :
    (g.settle k result).status? id =
      (g.status? id).map fun s => if k = id then .ofAnswer (g.completion k result) else s :=
  status?_enact hg (.settle k result) id

theorem status?_replay_unmarking {acts : List Act} (hg : g.Named) (h : ∀ act ∈ acts, act.isMark = false) (id : NodeId) :
    (g.replay acts).status? id = g.status? id := by
  induction acts generalizing g with
  | nil => rfl
  | cons act acts ih =>
    obtain ⟨hact, hacts⟩ := List.forall_mem_cons.1 h
    rw [replay_cons, ih (hg.enact act) hacts, status?_enact_unmarking hg hact]

/-- Nodes that are given up are idle again. -/
theorem status?_resets (hg : g.Named) (ids : List NodeId) (id : NodeId) :
    (g.replay (ids.map .reset)).status? id = (g.status? id).map fun s => if id ∈ ids then .idle else s := by
  induction ids generalizing g with
  | nil => exact Option.map_id'.symm
  | cons k rest ih =>
    rw [List.map_cons, replay_cons, ih (hg.enact (.reset k)), status?_enact hg, Option.map_map]
    congr 1
    funext s
    by_cases hk : k = id
    · simp [marked, hk]
    · simp [marked, hk, Ne.symm hk]

/-- When an iteration begins, only nodes of its scan become executing. -/
theorem status?_preparing {iteration : Nat} {context : Context} {ids : List NodeId} {id : NodeId} {s : NodeStatus}
    (hg : g.Named) (h : (g.replay (Run.preparing iteration context ids g)).status? id = some s) :
    g.status? id = some s ∨ s = .executing ∧ id ∈ ids := by
  induction ids generalizing g with
  | nil => exact Or.inl h
  | cons k rest ih =>
    unfold Run.preparing at h
    cases hk : g.node? k with
    | none =>
      simp only [hk] at h
      exact (ih hg h).imp_right (And.imp_right (List.mem_cons_of_mem k))
    | some n =>
      obtain rfl := hg k n hk
      have hset : g.setNode n.prepare.2 = g.enact (.prepare (n.activation n.prepare.1 iteration context)) := by
        rw [enact, show (n.activation n.prepare.1 iteration context).node = n.id from rfl, modifyNode_of_some hk]
        rfl
      simp only [hk, replay_cons, hset] at h
      rcases ih (hg.enact _) h with h | ⟨hs, hid⟩
      · rw [status?_enact hg, Option.map_eq_some_iff] at h
        obtain ⟨s', hs', hmarked⟩ := h
        change (if n.id = id then _ else s') = s at hmarked
        split_ifs at hmarked with he
        · exact Or.inr ⟨hmarked.symm, he ▸ List.mem_cons_self⟩
        · exact Or.inl (hmarked ▸ hs')
      · exact Or.inr ⟨hs, List.mem_cons_of_mem _ hid⟩

end Graph

end Dataflow
