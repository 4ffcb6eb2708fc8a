import Dataflow.Proofs.Document.Containers
import Dataflow.Proofs.Graph.RelayCycles

/-!
# The groups of relays

The relays that are reported are those that feed themselves in a circle, and they are reported together with those that
they share a circle with. How the strongly connected components are found does not matter for this.

* `Link.FindsComponents` is all that is asked of the search for components, and `Link.findsComponents` gives it of the
  search here;
* `GraphDocument.nodup_restore`: in a loaded graph nodes are told apart, as they are in one that was reached, by
  `Graph.Identified.nodup_ids`;
* `Graph.relays_grouped`: the groups of relays are told by which relay feeds which.
-/

namespace Dataflow

namespace Link

/-- A search finds the strongly connected components of any nodes, whatever links there are between them. -/
def FindsComponents (search : List NodeId → List Link → List (List NodeId)) : Prop :=
  ∀ {nodes : List NodeId} {links : List Link}, nodes.Nodup → (∀ a b, Joins links a b → a ∈ nodes ∧ b ∈ nodes) →
    AreComponents nodes links (search nodes links)

theorem findsComponents : FindsComponents components :=
  fun hnodes _ => areComponents_components _ hnodes

end Link

namespace Graph

/-! ### Nodes are told apart -/

theorem Listed.nodup_ids_addNode {g g' : Graph} {n : Node} (hg : g.Listed) (hids : (g.nodeList.map Node.id).Nodup)
    (h : g.addNode n = .ok g') : (g'.nodeList.map Node.id).Nodup := by
  obtain ⟨hnew, -⟩ := addNode_eq_ok h
  rw [nodeList_addNode h fun id => hg.listed.1, List.map_append, List.map_singleton]
  refine hids.append (List.nodup_singleton _) (List.disjoint_singleton.2 fun hmem => ?_)
  obtain ⟨m, hm, hid⟩ := List.mem_map.1 hmem
  have hfound := hg.mem_nodeList.1 hm
  rw [hid, hnew] at hfound
  cases hfound

end Graph

namespace GraphDocument

theorem nodup_addNodes {resolver : Resolver} {ds : List NodeDocument} {g g' : Graph} (hg : g.Listed)
    (hids : (g.nodeList.map Node.id).Nodup) (h : addNodes resolver ds g = .ok g') : (g'.nodeList.map Node.id).Nodup := by
  induction ds generalizing g with
  | nil =>
    cases h
    exact hids
  | cons d rest ih =>
    obtain ⟨⟨n, s⟩, -, h⟩ := Except.bind_eq_ok.1 h
    obtain ⟨m, -, h⟩ := Except.bind_eq_ok.1 h
    obtain ⟨g₁, hadd, h⟩ := Except.bind_eq_ok.1 h
    have hdrawn : ({ g with supply := s } : Graph).Listed := ⟨hg.listed, hg.named⟩
    exact ih (hdrawn.addNode hadd) (hdrawn.nodup_ids_addNode hids hadd) h

/-- A loaded graph tells its nodes apart. -/
theorem nodup_restore {d : GraphDocument} {resolver : Resolver} {s : Supply} {g : Graph}
    (h : d.restore resolver s = .ok g) : (g.nodeList.map Node.id).Nodup := by
  obtain ⟨g₁, hnodes, hedges⟩ := Except.bind_eq_ok.1 h
  obtain ⟨horder, htable, -⟩ := addEdges_frame hedges
  have hsame : g.nodeList = g₁.nodeList := by
    rw [Graph.nodeList, horder, Graph.nodeList]
    exact List.filterMap_congr fun id _ => by rw [Graph.node?, htable, Graph.node?]
  rw [hsame]
  exact nodup_addNodes (Graph.listed_empty s) List.nodup_nil hnodes

end GraphDocument

namespace Graph

/-! ### Which relays are in one group -/

/-- **The groups of relays are told by which relay feeds which.** No relay is in two groups. A node is in a group if and
only if it feeds itself in one or more steps from relay to relay, and two nodes are in one group if and only if each of
them feeds the other in this way. -/
theorem relays_grouped {search : List NodeId → List Link → List (List NodeId)} (hsearch : Link.FindsComponents search)
    {g : Graph} (hids : (g.nodeList.map Node.id).Nodup) :
    (g.relayGroups search).Pairwise List.Disjoint ∧
      (∀ a, (∃ group ∈ g.relayGroups search, a ∈ group) ↔ Relation.TransGen g.RelayFeeds a a) ∧
      ∀ a b, a ≠ b → ((∃ group ∈ g.relayGroups search, a ∈ group ∧ b ∈ group) ↔
        Relation.TransGen g.RelayFeeds a b ∧ Relation.TransGen g.RelayFeeds b a) := by
  have hends : ∀ a b, Link.Joins g.relayLinks a b → a ∈ g.relays ∧ b ∈ g.relays := fun _ _ => relayLinks_ends
  have hfound := hsearch (nodup_relays hids) hends
  have hfeeds : Link.Joins g.relayLinks = g.RelayFeeds := funext₂ fun _ _ => propext joins_relayLinks
  rw [← hfeeds]
  exact ⟨hfound.apart.filter _, fun _ => hfound.exists_cyclic hends, fun _ _ => hfound.exists_cyclic_pair hends⟩

/-- Two relays that feed each other, and one that they feed and that feeds itself. -/
def relayTrio? : Except GraphError Graph := do
  let first := Node.create ⟨1⟩ "first" (signal true) [] ⟨4⟩
  let second := Node.create ⟨2⟩ "second" (signal true) [] first.2
  let third := Node.create ⟨3⟩ "third" (signal true) [] second.2
  let g ← (empty third.2).addNode first.1
  let g ← g.addNode second.1
  let g ← g.addNode third.1
  let g ← g.addEdge first.1.execOut.id second.1.execIn.id
  let g ← g.addEdge second.1.execOut.id first.1.execIn.id
  let g ← g.addEdge first.1.execOut.id third.1.execIn.id
  g.addEdge third.1.execOut.id third.1.execIn.id

/-- The graph that they make up. -/
def relayTrio : Graph :=
  relayTrio?.toOption.getD (empty ⟨0⟩)

/-- The two are a group, and the third is one of its own, since nothing leads back from it. -/
theorem relays_grouped_trio : (relayTrio.nodeList.map Node.id).Nodup ∧
    relayTrio.relayGroups Link.components = [[⟨1⟩, ⟨2⟩], [⟨3⟩]] ∧
    Relation.TransGen relayTrio.RelayFeeds ⟨1⟩ ⟨2⟩ ∧ Relation.TransGen relayTrio.RelayFeeds ⟨3⟩ ⟨3⟩ ∧
    ¬ (Relation.TransGen relayTrio.RelayFeeds ⟨1⟩ ⟨3⟩ ∧ Relation.TransGen relayTrio.RelayFeeds ⟨3⟩ ⟨1⟩) := by
  have hids : (relayTrio.nodeList.map Node.id).Nodup := by decide +kernel
  have hgroups : relayTrio.relayGroups Link.components = [[⟨1⟩, ⟨2⟩], [⟨3⟩]] := by decide +kernel
  obtain ⟨-, hone, htwo⟩ := relays_grouped Link.findsComponents hids
  rw [hgroups] at hone htwo
  exact ⟨hids, hgroups, ((htwo ⟨1⟩ ⟨2⟩ (by decide)).1 (by simp)).1, (hone ⟨3⟩).1 (by simp),
    fun h => absurd ((htwo ⟨1⟩ ⟨3⟩ (by decide)).2 h) (by simp)⟩

end Graph

end Dataflow
