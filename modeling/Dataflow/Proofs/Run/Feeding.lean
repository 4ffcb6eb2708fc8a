import Dataflow.Proofs.Graph.Indexes
import Dataflow.Proofs.Run.Transfers

/-!
# Who feeds whom in a run

Ports come and go in a run. No edge ends at a port that was not there before, so that whatever moves in a run moves along
the edges that joined two nodes at its start.

* `Graph.mem_portIds_replay`: a port with an old identifier was there before, at the same node;
* `Graph.Feeds` says that the outputs of a node are offered to a port of another one, and `Graph.Feeds.joined` that the two
  were joined at the start;
* `Graph.feeds_relay`: the relays that outputs reach are fed by them.
-/

namespace Dataflow

namespace Graph

variable {g : Graph}

theorem Agrees.isOwned (ha : g.Agrees) (hp : Table.Proper g.owners) : g.Owned :=
  ⟨hp, ha.owner _ _⟩

theorem Agrees.mem_outgoing (ha : g.Agrees) {p q : PortId} : q ∈ g.outgoing p ↔ ⟨p, q⟩ ∈ g.edges := by
  rw [ha.outgoing, Edge.mem_targetsOf]

theorem Owned.replay (ho : g.Owned) (hg : g.Identified) (acts : List Act) : (g.replay acts).Owned := by
  induction acts generalizing g with
  | nil => exact ho
  | cons act acts ih => exact ih (ho.enact hg act) (hg.enact act)

/-! ### Ports that were there before -/

theorem mem_portIds_enact (hg : g.Identified) {act : Act} {id : NodeId} {n : Node} {p : PortId}
    (hn : (g.enact act).node? id = some n) (hp : p ∈ n.portIds) (hused : g.supply.Used p) :
    ∃ n₀, g.node? id = some n₀ ∧ p ∈ n₀.portIds := by
  rcases enact_cases hg act with h | ⟨m, m', s', -, hm, he, h⟩
  · rw [h] at hn
    exact ⟨n, hn, hp⟩
  · have hnode : (g.enact act).node? id = if m.id = id then some m' else g.node? id := by
      rcases h with ⟨h, -⟩ | h
      · rw [h, node?_evolve, he.id]
      · rw [h, node?_reindex, node?_evolve, he.id]
    rw [hnode] at hn
    split_ifs at hn with hid
    · obtain rfl := Option.some.inj hn
      have hold := ((he.renews (hg.ordered hm)).mem p hp).resolve_right fun hnew => absurd hused (not_lt.2 hnew.1)
      exact ⟨m, hid ▸ hm, hold⟩
    · exact ⟨n, hn, hp⟩

/-- A port with an old identifier was there before, at the same node. -/
theorem mem_portIds_replay (hg : g.Identified) {acts : List Act} {id : NodeId} {n : Node} {p : PortId}
    (hn : (g.replay acts).node? id = some n) (hp : p ∈ n.portIds) (hused : g.supply.Used p) :
    ∃ n₀, g.node? id = some n₀ ∧ p ∈ n₀.portIds := by
  induction acts generalizing g with
  | nil => exact ⟨n, hn, hp⟩
  | cons act acts ih =>
    obtain ⟨n₁, hn₁, hp₁⟩ := ih (hg.enact act) hn (hused.mono (supply_enact_le hg act))
    exact mem_portIds_enact hg hn₁ hp₁ hused

/-! ### Offers from node to node -/

theorem takeUnread_subset (ports : List PortId) (n : Node) : ∀ e ∈ (takeUnread ports n).1, e.1 ∈ ports := by
  induction ports generalizing n with
  | nil => exact fun _ he => absurd he List.not_mem_nil
  | cons port rest ih =>
    have hrest : ∀ m : Node, ∀ e ∈ (takeUnread rest m).1, e.1 ∈ port :: rest := fun m e he =>
      List.mem_cons_of_mem _ (ih m e he)
    unfold takeUnread
    split
    · exact hrest n
    · split_ifs
      · exact List.forall_mem_cons.2 ⟨List.mem_cons_self, hrest _⟩
      · exact hrest n

/-- What is taken from a node comes from its ports. -/
theorem mem_portIds_of_taken (hg : g.Identified) {id : NodeId} {e : PortId × Value} (he : e ∈ g.taken id) :
    ∃ n, g.node? id = some n ∧ e.1 ∈ n.portIds := by
  cases hn : g.node? id with
  | none => simp only [taken, hn, List.not_mem_nil] at he
  | some n =>
    simp only [taken, hn] at he
    refine ⟨n, rfl, Node.portIds_of_outputIds (hg.ordered hn) ?_⟩
    exact g.feedingPorts_subset n _ (takeUnread_subset _ n e he)

/-- The outputs of a node are offered to a port that another node owns when the offer is made. -/
def Feeds (g : Graph) (id id' : NodeId) : Prop :=
  ∃ o ∈ (g.take id).offers (g.taken id), ∃ acts, ((g.take id).replay acts).ownerOf? o.edge.target = some id'

/-- **A node that is fed in a run was joined to the one that feeds it at the start.** -/
theorem Feeds.joined (hg : g.Identified) (ho : g.Owned) (hlinked : ∀ p q, q ∈ g.outgoing p → ⟨p, q⟩ ∈ g.edges)
    {acts : List Act} {id id' : NodeId} (h : (g.replay acts).Feeds id id') : g.Joined id id' := by
  obtain ⟨o, hoffer, acts', howner⟩ := h
  obtain ⟨hvalue, htarget⟩ := mem_offers.1 hoffer
  have hreplay : ((g.replay acts).take id).replay acts' = g.replay (acts ++ .take id :: acts') := by
    rw [replay_append]
    rfl
  have hout : o.edge.target ∈ g.outgoing o.edge.source := by
    rwa [show (g.replay acts).take id = (g.replay acts).enact (.take id) from rfl, outgoing_enact,
      outgoing_replay] at htarget
  obtain ⟨hsource, hused⟩ := hg.ends hout
  obtain ⟨n, hn, hp⟩ := mem_portIds_of_taken (hg.replay acts) hvalue
  obtain ⟨n₀, hn₀, hp₀⟩ := mem_portIds_replay hg hn hp hsource
  rw [hreplay] at howner
  obtain ⟨m, hm, hq⟩ := (ho.replay hg _).owned.1 howner
  obtain ⟨m₀, hm₀, hq₀⟩ := mem_portIds_replay hg hm hq hused
  exact ⟨n₀, m₀, o.edge, hn₀, hm₀, hlinked _ _ hout, hp₀, hq₀⟩

/-- A relay that is reached owns the target of an offer when it is made. -/
theorem owner_of_mem_relays {offers : List Offer} {d : Delivery} (hg : d.graph.Identified) {relay : NodeId}
    (h : relay ∈ (deliver offers d).relays) :
    relay ∈ d.relays ∨ ∃ o ∈ offers, ∃ acts, (d.graph.replay acts).ownerOf? o.edge.target = some relay := by
  induction offers generalizing d with
  | nil => exact Or.inl h
  | cons o rest ih =>
    unfold deliver at h
    by_cases hs : d.graph.skips o.edge = true
    · rw [if_pos hs] at h
      rcases ih hg h with hmem | ⟨o', ho', hlater⟩
      · exact Or.inl hmem
      · exact Or.inr ⟨o', List.mem_cons_of_mem _ ho', hlater⟩
    · rw [if_neg hs] at h
      cases hw : d.graph.write o.edge.target o.value with
      | error e =>
        rw [hw] at h
        exact Or.inl h
      | ok result =>
        obtain ⟨stored, g'⟩ := result
        rw [hw] at h
        have henact : d.graph.enact (.offer o) = g' := by simp only [enact, answer?, if_neg hs, hw]
        rcases ih (d := ⟨g', _, _, _⟩) (henact ▸ hg.enact (.offer o)) h with hmem | ⟨o', ho', acts, howner⟩
        · dsimp only at hmem
          split at hmem
          · rename_i relay' hat
            rcases mem_insertNew.1 hmem with rfl | hmem
            · simp only [relayAt?, Option.bind_eq_bind, Option.bind_eq_some_iff] at hat
              obtain ⟨owner, howner, n, -, hdirect⟩ := hat
              split_ifs at hdirect
              cases hdirect
              exact Or.inr ⟨o, List.mem_cons_self, [.offer o], by rw [replay_cons, replay_nil, henact, howner]⟩
            · exact Or.inl hmem
          · exact Or.inl hmem
        · exact Or.inr ⟨o', List.mem_cons_of_mem _ ho', .offer o :: acts, by rw [replay_cons, henact, howner]⟩

theorem feeds_relay (hg : g.Identified) {id relay : NodeId} (h : relay ∈ (g.transferOutputs id).relays) :
    g.Feeds id relay := by
  rw [transferOutputs_eq] at h
  exact (owner_of_mem_relays (d := ⟨g.take id, [], [], none⟩) (hg.enact (.take id)) h).resolve_left List.not_mem_nil

end Graph

end Dataflow
