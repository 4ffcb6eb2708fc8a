import Dataflow.Graph.RelayCycles
import Dataflow.Proofs.Graph.Indexes
import Mathlib.Data.List.Chain
import Mathlib.Logic.Relation

/-!
# The search for cycles of relays

The search adds what one link leads to, over and over. Each time it gets nearer to its end by one link at least, so that
as many times as there are links are enough.

* `Link.Joins` says that there is a link from one node to another;
* `Link.mem_reach`: the nodes that are found are exactly those that one or more links lead to;
* `Link.AreComponents` says that groups are the strongly connected components of nodes with links, and
  `Link.areComponents_components` that this is what the search finds;
* `Link.AreComponents.exists_cyclic`: the cyclic components are those of the nodes that lead back to themselves;
* `Graph.RelayFeeds` says that one relay feeds another, which is what links tell by `Graph.joins_relayLinks`;
* `Graph.relayCycles_eq_nil`: no group is found exactly if no relay leads back to itself;
* `Graph.length_le_relays`: in this case, no chain of relays is longer than there are relays.
-/

namespace Dataflow

namespace Link

/-- There is a link from one node to another. -/
def Joins (links : List Link) (a b : NodeId) : Prop :=
  (a, b) ∈ links

/-- No link leads out of a list of nodes. -/
def Closed (links : List Link) (found : List NodeId) : Prop :=
  ∀ a b, Joins links a b → a ∈ found → b ∈ found

/-- How many links lead to nodes that are not found yet. -/
def missing (links : List Link) (found : List NodeId) : Nat :=
  (links.filter fun link => !found.contains link.2).length

section Follow

variable {links : List Link} {found : List NodeId} {a b : NodeId}

theorem subset_follow (links : List Link) (found : List NodeId) : found ⊆ follow links found := by
  induction links generalizing found with
  | nil => exact List.Subset.refl _
  | cons link rest ih =>
    rw [follow, List.foldl_cons]
    refine List.Subset.trans (fun a ha => ?_) (ih _)
    split_ifs
    · exact mem_insertNew.2 (Or.inr ha)
    · exact ha

/-- What is found at first is found with all that it feeds. -/
theorem mem_follow (h : Joins links a b) (ha : a ∈ found) : b ∈ follow links found := by
  induction links generalizing found with
  | nil => exact absurd h List.not_mem_nil
  | cons link rest ih =>
    rw [follow, List.foldl_cons]
    rcases List.mem_cons.1 h with rfl | h
    · rw [if_pos (List.contains_iff_mem.2 ha)]
      exact subset_follow rest _ (mem_insertNew.2 (Or.inl rfl))
    · refine ih h ?_
      split_ifs
      · exact mem_insertNew.2 (Or.inr ha)
      · exact ha

/-- Nothing else is found. -/
theorem follow_subset {P : NodeId → Prop} (hP : ∀ a b, Joins links a b → P a → P b) (hfound : ∀ a ∈ found, P a) :
    ∀ a ∈ follow links found, P a := by
  induction links generalizing found with
  | nil => exact hfound
  | cons link rest ih =>
    rw [follow, List.foldl_cons]
    refine ih (fun a b h => hP a b (List.mem_cons_of_mem _ h)) ?_
    split_ifs with hlink
    · intro a ha
      rcases mem_insertNew.1 ha with rfl | ha
      · exact hP link.1 link.2 List.mem_cons_self (hfound _ (List.contains_iff_mem.1 hlink))
      · exact hfound a ha
    · exact hfound

/-- A closed list stays as it is, as far as its members go. -/
theorem Closed.follow (h : Closed links found) : Closed links (follow links found) := by
  have hsame : ∀ a ∈ Link.follow links found, a ∈ found := follow_subset h fun _ ha => ha
  exact fun a b hab ha => subset_follow links found (h a b hab (hsame a ha))

/-- As long as the list is not closed, links are used up. -/
theorem missing_follow_lt (h : ¬ Closed links found) : missing links (follow links found) < missing links found := by
  simp only [Closed, not_forall] at h
  obtain ⟨a, b, hab, ha, hb⟩ := h
  have hsub : (links.filter fun link => !(follow links found).contains link.2).Sublist
      (links.filter fun link => !found.contains link.2) := by
    refine List.monotone_filter_right links fun link hlink => ?_
    simp only [Bool.not_eq_true', List.contains_eq_mem, decide_eq_false_iff_not] at hlink ⊢
    exact fun hmem => hlink (subset_follow links found hmem)
  refine lt_of_le_of_ne hsub.length_le fun heq => ?_
  -- the link to `b` is counted before, and not any more
  have hmem : (a, b) ∈ links.filter fun link => !found.contains link.2 :=
    List.mem_filter.2 ⟨hab, by simpa using hb⟩
  rw [← hsub.eq_of_length heq] at hmem
  have hnot := (List.mem_filter.1 hmem).2
  simp only [Bool.not_eq_true', List.contains_eq_mem, decide_eq_false_iff_not] at hnot
  exact hnot (mem_follow hab ha)

theorem closed_repeat (links : List Link) (found : List NodeId) (count : Nat) :
    Closed links (Nat.repeat (follow links) count found) ∨
      missing links (Nat.repeat (follow links) count found) + count ≤ links.length := by
  induction count with
  | zero => exact Or.inr (List.length_filter_le ..)
  | succ count ih =>
    by_cases hclosed : Closed links (Nat.repeat (follow links) count found)
    · exact Or.inl hclosed.follow
    · have hle := ih.resolve_left hclosed
      have hlt := missing_follow_lt hclosed
      exact Or.inr (by rw [Nat.repeat]; omega)

end Follow

theorem closed_reach (links : List Link) (id : NodeId) : Closed links (reach links id) := by
  rcases closed_repeat links (after links id) links.length with hclosed | hmissing
  · exact hclosed
  · intro a b hab _
    have hnone : (links.filter fun link => !(reach links id).contains link.2) = [] := by
      refine List.eq_nil_of_length_eq_zero ?_
      change missing links (Nat.repeat (follow links) links.length (after links id)) = 0
      omega
    by_contra hb
    have hmem : (a, b) ∈ links.filter fun link => !(reach links id).contains link.2 :=
      List.mem_filter.2 ⟨hab, by simpa using hb⟩
    rw [hnone] at hmem
    exact absurd hmem List.not_mem_nil

/-- **The search finds the nodes that one or more links lead to.** -/
theorem mem_reach {links : List Link} {a b : NodeId} : b ∈ reach links a ↔ Relation.TransGen (Joins links) a b := by
  have hafter : ∀ b, b ∈ after links a ↔ Joins links a b := fun b => by simp [after, Joins]
  constructor
  · have hall : ∀ count, ∀ b ∈ Nat.repeat (follow links) count (after links a), Relation.TransGen (Joins links) a b := by
      intro count
      induction count with
      | zero => exact fun b hb => .single ((hafter b).1 hb)
      | succ count ih => exact follow_subset (fun _ _ hbc hab => hab.tail hbc) ih
    exact hall links.length b
  · intro h
    have hsub : ∀ count, after links a ⊆ Nat.repeat (follow links) count (after links a) := by
      intro count
      induction count with
      | zero => exact List.Subset.refl _
      | succ count ih => exact List.Subset.trans ih (subset_follow links _)
    induction h with
    | single h => exact hsub links.length ((hafter _).2 h)
    | tail _ h ih => exact closed_reach links a _ _ h ih

/-! ### Components -/

/-- Each of two nodes leads to the other, in any number of steps. -/
def Mutual (links : List Link) (a b : NodeId) : Prop :=
  Relation.ReflTransGen (Joins links) a b ∧ Relation.ReflTransGen (Joins links) b a

/-- Groups are the strongly connected components of nodes with links: every node is in one of them, and those that are in
one group are those that lead to each other. -/
structure AreComponents (nodes : List NodeId) (links : List Link) (groups : List (List NodeId)) : Prop where
  covers : ∀ a, (∃ group ∈ groups, a ∈ group) ↔ a ∈ nodes
  filled : ∀ group ∈ groups, group ≠ []
  once : ∀ group ∈ groups, group.Nodup
  apart : groups.Pairwise List.Disjoint
  strong : ∀ group ∈ groups, ∀ a ∈ group, ∀ b, b ∈ group ↔ b ∈ nodes ∧ Mutual links a b

section Components

variable {nodes : List NodeId} {links : List Link} {groups : List (List NodeId)} {a b : NodeId}

theorem Mutual.symm (h : Mutual links a b) : Mutual links b a :=
  ⟨h.2, h.1⟩

theorem Mutual.trans {c : NodeId} (h : Mutual links a b) (h' : Mutual links b c) : Mutual links a c :=
  ⟨h.1.trans h'.1, h'.2.trans h.2⟩

theorem mutual_iff : Mutual links a b ↔ b = a ∨
    Relation.TransGen (Joins links) a b ∧ Relation.TransGen (Joins links) b a := by
  rw [Mutual, Relation.reflTransGen_iff_eq_or_transGen, Relation.reflTransGen_iff_eq_or_transGen]
  constructor
  · rintro ⟨h | h, h' | h'⟩
    · exact Or.inl h
    · exact Or.inl h
    · exact Or.inl h'.symm
    · exact Or.inr ⟨h, h'⟩
  · rintro (h | ⟨h, h'⟩)
    · exact ⟨Or.inl h, Or.inl h.symm⟩
    · exact ⟨Or.inr h, Or.inr h'⟩

/-- The component of a node, as it is found. -/
def component (nodes : List NodeId) (links : List Link) (id : NodeId) : List NodeId :=
  nodes.filter fun other => other = id || ((reach links id).contains other && (reach links other).contains id)

theorem components_eq (nodes : List NodeId) (links : List Link) : components nodes links =
    (nodes.map (component nodes links)).foldl (fun components group => insertNew group components) [] := by
  simp only [components, List.map_map, List.filter_map, Function.comp_def, List.map_id']
  rfl

theorem mem_component : b ∈ component nodes links a ↔ b ∈ nodes ∧ Mutual links a b := by
  rw [component, List.mem_filter, mutual_iff]
  simp only [Bool.or_eq_true, decide_eq_true_eq, Bool.and_eq_true, List.contains_iff_mem, mem_reach]

/-- Nodes that lead to each other have the same component. -/
theorem component_congr (h : Mutual links a b) : component nodes links a = component nodes links b := by
  refine List.filter_congr fun other hother => ?_
  have hsame : other ∈ component nodes links a ↔ other ∈ component nodes links b := by
    rw [mem_component, mem_component]
    exact and_congr_right fun _ => ⟨h.symm.trans, h.trans⟩
  rw [component, component, List.mem_filter, List.mem_filter] at hsame
  rw [Bool.eq_iff_iff]
  simpa [hother] using hsame

/-- The groups that are found are the components of the nodes, each of them once. -/
theorem mem_components {group : List NodeId} :
    group ∈ components nodes links ↔ ∃ id ∈ nodes, component nodes links id = group := by
  rw [components_eq, (Graph.foldl_insertNew _ [] List.nodup_nil).2, List.mem_map]
  simp only [List.not_mem_nil, false_or]

theorem nodup_components : (components nodes links).Nodup := by
  rw [components_eq]
  exact (Graph.foldl_insertNew _ [] List.nodup_nil).1

/-- **The search finds the strongly connected components.** -/
theorem areComponents_components (links : List Link) (hnodes : nodes.Nodup) :
    AreComponents nodes links (components nodes links) := by
  have hself : ∀ id ∈ nodes, id ∈ component nodes links id := fun id hid => mem_component.2 ⟨hid, .refl, .refl⟩
  refine ⟨fun a => ⟨?_, fun ha => ⟨_, mem_components.2 ⟨a, ha, rfl⟩, hself a ha⟩⟩, fun group hg => ?_,
    fun group hg => ?_, ?_, fun group hg a ha b => ?_⟩
  · rintro ⟨group, hg, ha⟩
    obtain ⟨id, -, rfl⟩ := mem_components.1 hg
    exact (mem_component.1 ha).1
  · obtain ⟨id, hid, rfl⟩ := mem_components.1 hg
    exact List.ne_nil_of_mem (hself id hid)
  · obtain ⟨id, -, rfl⟩ := mem_components.1 hg
    exact hnodes.filter _
  · -- components that share a node are the same
    refine nodup_components.imp_of_mem fun {group group'} hg hg' hne a ha ha' => hne ?_
    obtain ⟨id, -, rfl⟩ := mem_components.1 hg
    obtain ⟨id', -, rfl⟩ := mem_components.1 hg'
    exact component_congr ((mem_component.1 ha).2.trans (mem_component.1 ha').2.symm)
  · obtain ⟨id, -, rfl⟩ := mem_components.1 hg
    rw [mem_component]
    have hid := (mem_component.1 ha).2
    exact and_congr_right fun _ => ⟨hid.symm.trans, hid.trans⟩

theorem eq_singleton {group : List NodeId} (honce : group.Nodup) (ha : a ∈ group) (hall : ∀ b ∈ group, b = a) :
    group = [a] :=
  List.perm_singleton.1 ((List.perm_ext_iff_of_nodup honce (List.nodup_singleton a)).2 fun b =>
    ⟨fun hb => List.mem_singleton.2 (hall b hb), fun hb => List.mem_singleton.1 hb ▸ ha⟩)

section Cyclic

variable (h : AreComponents nodes links groups) (hends : ∀ a b, Joins links a b → a ∈ nodes ∧ b ∈ nodes)

include h hends

/-- **The cyclic components are those of the nodes that lead back to themselves.** -/
theorem AreComponents.exists_cyclic :
    (∃ group ∈ groups.filter (isCyclic links), a ∈ group) ↔ Relation.TransGen (Joins links) a a := by
  constructor
  · rintro ⟨group, hgroup, ha⟩
    obtain ⟨hgroup, hcyclic⟩ := List.mem_filter.1 hgroup
    by_cases hother : ∃ b ∈ group, b ≠ a
    · -- another node of the group is a stop on the way back
      obtain ⟨b, hb, hne⟩ := hother
      have hmutual := ((h.strong group hgroup a ha b).1 hb).2
      obtain ⟨honward, hback⟩ := (mutual_iff.1 hmutual).resolve_left hne
      exact honward.trans hback
    · push Not at hother
      rw [eq_singleton (h.once group hgroup) ha hother] at hcyclic
      exact .single (by simpa [isCyclic, Joins] using hcyclic)
  · intro hcycle
    obtain ⟨b, hab, hback⟩ := Relation.TransGen.head'_iff.1 hcycle
    obtain ⟨ha, hb⟩ := hends a b hab
    obtain ⟨group, hgroup, hmem⟩ := (h.covers a).2 ha
    have hmemb : b ∈ group := (h.strong group hgroup a hmem b).2 ⟨hb, .single hab, hback⟩
    refine ⟨group, List.mem_filter.2 ⟨hgroup, ?_⟩, hmem⟩
    match group, hmem, hmemb with
    | [first], hmem, hmemb =>
      obtain rfl := List.mem_singleton.1 hmem
      obtain rfl := List.mem_singleton.1 hmemb
      simpa [isCyclic, Joins] using hab
    | _ :: _ :: _, _, _ => simp [isCyclic]

/-- Two nodes are in one cyclic component if each leads to the other. -/
theorem AreComponents.exists_cyclic_pair (hne : a ≠ b) :
    (∃ group ∈ groups.filter (isCyclic links), a ∈ group ∧ b ∈ group) ↔
      Relation.TransGen (Joins links) a b ∧ Relation.TransGen (Joins links) b a := by
  constructor
  · rintro ⟨group, hgroup, ha, hb⟩
    have hmutual := ((h.strong group (List.mem_filter.1 hgroup).1 a ha b).1 hb).2
    exact (mutual_iff.1 hmutual).resolve_left hne.symm
  · rintro ⟨honward, hback⟩
    obtain ⟨group, hgroup, ha⟩ := (h.exists_cyclic hends).2 (honward.trans hback)
    obtain ⟨c, hbc, -⟩ := Relation.TransGen.head'_iff.1 hback
    refine ⟨group, hgroup, ha, (h.strong group (List.mem_filter.1 hgroup).1 a ha b).2 ⟨(hends b c hbc).1, ?_⟩⟩
    exact mutual_iff.2 (Or.inr ⟨honward, hback⟩)

end Cyclic

end Components

end Link

namespace Graph

/-! ### Links between relays -/

/-- A direct-through node of the graph has an identifier. -/
def IsRelay (g : Graph) (id : NodeId) : Prop :=
  ∃ n ∈ g.nodeList, n.id = id ∧ n.isDirectThrough = true

/-- One relay feeds another, or itself: an edge runs from a port that the first owns to a port that the second owns. -/
def RelayFeeds (g : Graph) (a b : NodeId) : Prop :=
  g.IsRelay a ∧ g.IsRelay b ∧ ∃ e ∈ g.edges, g.ownerOf? e.source = some a ∧ g.ownerOf? e.target = some b

theorem mem_relays_iff {g : Graph} {id : NodeId} : id ∈ g.relays ↔ g.IsRelay id := by
  simp only [relays, IsRelay, List.mem_map, List.mem_filter]
  constructor
  · rintro ⟨n, ⟨hn, hdirect⟩, hid⟩
    exact ⟨n, hn, hid, hdirect⟩
  · rintro ⟨n, hn, hid, hdirect⟩
    exact ⟨n, ⟨hn, hdirect⟩, hid⟩

theorem mem_relays {g : Graph} {id : NodeId} (hg : g.Identified) :
    id ∈ g.relays ↔ ∃ n, g.node? id = some n ∧ n.isDirectThrough = true := by
  simp only [mem_relays_iff, IsRelay, mem_nodeList hg]
  constructor
  · rintro ⟨n, hn, rfl, hdirect⟩
    exact ⟨n, hn, hdirect⟩
  · rintro ⟨n, hn, hdirect⟩
    obtain rfl := hg.named hn
    exact ⟨n, hn, rfl, hdirect⟩

theorem Identified.nodup_ids {g : Graph} (hg : g.Identified) : (g.nodeList.map Node.id).Nodup :=
  nodeList_ids hg ▸ hg.nodup

/-- Relays are told apart if the nodes of the graph are. -/
theorem nodup_relays {g : Graph} (hg : (g.nodeList.map Node.id).Nodup) : g.relays.Nodup :=
  hg.sublist (List.filter_sublist.map Node.id)

theorem endOwners?_eq_some {g : Graph} {e : Edge} {a b : NodeId} :
    g.endOwners? e = some (a, b) ↔ g.ownerOf? e.source = some a ∧ g.ownerOf? e.target = some b := by
  simp only [endOwners?, Option.bind_eq_bind, Option.bind_eq_some_iff, Option.pure_def, Option.some.injEq, Prod.mk.injEq]
  constructor
  · rintro ⟨a', ha, b', hb, rfl, rfl⟩
    exact ⟨ha, hb⟩
  · rintro ⟨ha, hb⟩
    exact ⟨a, ha, b, hb, rfl, rfl⟩

/-- Links tell which relay feeds which. -/
theorem joins_relayLinks {g : Graph} {a b : NodeId} : Link.Joins g.relayLinks a b ↔ g.RelayFeeds a b := by
  simp only [Link.Joins, relayLinks, RelayFeeds, List.mem_filter, List.mem_filterMap, endOwners?_eq_some,
    Bool.and_eq_true, List.contains_iff_mem, mem_relays_iff]
  tauto

theorem relayLinks_ends {g : Graph} {a b : NodeId} (h : Link.Joins g.relayLinks a b) : a ∈ g.relays ∧ b ∈ g.relays :=
  have hfeeds := joins_relayLinks.1 h
  ⟨mem_relays_iff.2 hfeeds.1, mem_relays_iff.2 hfeeds.2.1⟩

/-- Links are the edges from relay to relay. -/
theorem mem_relayLinks {g : Graph} (hg : g.Owned) {a b : NodeId} :
    Link.Joins g.relayLinks a b ↔ a ∈ g.relays ∧ b ∈ g.relays ∧ g.Joined a b := by
  rw [joins_relayLinks, mem_relays_iff, mem_relays_iff]
  refine and_congr_right fun _ => and_congr_right fun _ => ?_
  constructor
  · rintro ⟨e, he, ha, hb⟩
    obtain ⟨n, hn, hp⟩ := hg.owned.1 ha
    obtain ⟨n', hn', hq⟩ := hg.owned.1 hb
    exact ⟨n, n', e, hn, hn', he, hp, hq⟩
  · rintro ⟨n, n', e, hn, hn', he, hp, hq⟩
    exact ⟨e, he, hg.owned.2 ⟨n, hn, hp⟩, hg.owned.2 ⟨n', hn', hq⟩⟩

/-- **No group is found exactly if no relay leads back to itself.** -/
theorem relayCycles_eq_nil {g : Graph} (hrelays : g.relays.Nodup) :
    g.relayCycles = [] ↔ ∀ id, ¬ Relation.TransGen (Link.Joins g.relayLinks) id id := by
  have hfound := Link.areComponents_components g.relayLinks hrelays
  constructor
  · intro hnil id hcycle
    obtain ⟨group, hgroup, -⟩ := (hfound.exists_cyclic fun _ _ => relayLinks_ends).2 hcycle
    rw [← relayGroups, ← relayCycles, hnil] at hgroup
    exact absurd hgroup List.not_mem_nil
  · intro hnone
    refine List.eq_nil_iff_forall_not_mem.2 fun group hgroup => ?_
    obtain ⟨id, hid⟩ := List.exists_mem_of_ne_nil group (hfound.filled group (List.mem_filter.1 hgroup).1)
    exact hnone id ((hfound.exists_cyclic fun _ _ => relayLinks_ends).1 ⟨group, hgroup, hid⟩)

/-- Where no relay leads back to itself, a chain of relays is not longer than there are relays. -/
theorem length_le_relays {g : Graph} (hnodup : g.relays.Nodup) (hg : g.relayCycles = []) {chain : List NodeId}
    (hrelays : chain ⊆ g.relays) (hchain : chain.IsChain fun b a => Link.Joins g.relayLinks a b) :
    chain.length ≤ g.relays.length := by
  have hpairwise : chain.Pairwise fun b a => Relation.TransGen (Link.Joins g.relayLinks) a b := by
    have : IsTrans NodeId fun b a => Relation.TransGen (Link.Joins g.relayLinks) a b := ⟨fun _ _ _ h h' => h'.trans h⟩
    exact List.isChain_iff_pairwise.1 (hchain.imp fun _ _ h => .single h)
  have honce : chain.Nodup := hpairwise.imp fun {b a} h heq => by
    subst heq
    exact (relayCycles_eq_nil hnodup).1 hg _ h
  exact (honce.subperm hrelays).length_le

end Graph

end Dataflow
