import Dataflow.Proofs.Run.Protocol

/-!
# Exactly-once delivery

A value that an edge delivers to a data input or to an execution trigger is presented to one activation: the
next one of its node.

* `Graph.Presents` says what an activation finds at a port, seen through the containers above it;
* `Graph.Undisturbed` says that some acts write neither to a port, nor to one around it, nor to one inside it;
* `Graph.Holds` and `Graph.Vacant` are the invariants between a delivery and an activation, and between the
  clearing of a node and its next activation;
* `Run.delivers_once`: every run delivers exactly once.
-/

namespace Dataflow

namespace Graph

/-- Of two ports of a node one lies within the other, or they are the same. -/
def Nested (g : Graph) (p q : PortId) : Prop :=
  ∃ id slot top a b, g.portIn? id slot = some top ∧ a ∈ top.flatten ∧ b ∈ top.flatten ∧ a.id = p ∧ b.id = q ∧
    (a ∈ b.flatten ∨ b ∈ a.flatten)

/-- An act stores a value in a port, in one that encloses it, or in one inside it. -/
def Disturbs (g : Graph) (act : Act) (q : PortId) : Prop :=
  ∃ o w g', act = .offer o ∧ g.answer? o = some (.ok (w, g')) ∧ g.Nested o.edge.target q

/-- No act of a list disturbs a port. -/
def Undisturbed (q : PortId) : Graph → List Act → Prop
  | _, [] => True
  | g, act :: rest => ¬ g.Disturbs act q ∧ Undisturbed q (g.enact act) rest

/-- What an activation that is about to begin finds at a port of the trigger side. The port is seen through the
containers above it, and a data input is among the inputs of the activation. -/
def Presents (g : Graph) (a : Activation) (q : PortId) (w : Value) : Prop :=
  ∃ slot top path c, slot.isTrigger = true ∧ g.portIn? a.node slot = some top ∧ top.atPath? path = some c ∧
    c.id = q ∧ top.data.at? path = some w ∧ ∀ name, slot = .input name → Keyed.find? name a.inputs = some top.data

/-- A port of the trigger side is empty, and so is its place in the containers above it. -/
def Vacant (g : Graph) (id : NodeId) (q : PortId) : Prop :=
  ∀ slot top path c, slot.isTrigger = true → g.portIn? id slot = some top → top.atPath? path = some c → c.id = q →
    c.data = .null ∧ c.hasData = false

/-- A port of the trigger side shows a value through the containers above it. -/
def Holds (g : Graph) (id : NodeId) (q : PortId) (w : Value) : Prop :=
  ∃ slot top path c, slot.isTrigger = true ∧ g.portIn? id slot = some top ∧ top.shown? path = some c ∧ c.id = q ∧
    c.data = w

/-- A port that is not nested with another one is apart from it. -/
theorem apart_of_not_nested {g : Graph} {id : NodeId} {slot : Slot} {top c : Port} {p : PortId}
    (h : g.portIn? id slot = some top) (hc : c ∈ top.flatten) (hn : ¬ g.Nested p c.id) : Port.Apart p c top := by
  constructor
  · intro hin
    obtain ⟨a, ha, rfl⟩ := Port.mem_ids_iff.1 hin
    exact hn ⟨id, slot, top, a, c, h, Port.flatten_trans hc ha, hc, rfl, rfl, Or.inl ha⟩
  · rintro t ht rfl hin
    obtain ⟨b, hb, hbid⟩ := Port.mem_ids_iff.1 hin
    exact hn ⟨id, slot, top, t, b, h, ht, Port.flatten_trans ht hb, rfl, hbid, Or.inr hb⟩

/-! ### From a delivery to the next activation -/

section Holds

variable {g : Graph} {id : NodeId} {q : PortId} {w : Value} {act : Act}

theorem holds_offer (hg : g.WellFormed) {o : Offer} {g' : Graph} {n : Node}
    (h : g.answer? o = some (.ok (w, g'))) (hn : g.node? id = some n) (hq : o.edge.target ∈ n.triggerIds) :
    (g.enact (.offer o)).Holds id o.edge.target w := by
  have henact : g.enact (.offer o) = g' := by simp only [enact, h]
  have hwrite := h
  unfold answer? at hwrite
  split_ifs at hwrite
  obtain ⟨owner, m, m', s', -, hm, hw, hg'⟩ := write_eq_ok (Option.some.inj hwrite)
  obtain ⟨slot, top, top', htop, hpw, rfl⟩ := Node.write_eq_ok hw
  have hedit := Port.edit_of_writeAt hpw
  obtain ⟨slot', p, hs, hp, hin⟩ := (Node.mem_triggerIds (hg.ordered hn)).1 hq
  -- The owner of the port is the node that the port gates.
  obtain ⟨rfl, rfl⟩ := hg.portIn?_unique (by rw [portIn?_of_node? hn, hp]) (by rw [portIn?_of_node? hm, htop]) hin
    hedit.mem_ids
  have hafter : g'.portIn? id slot' = some top' := by
    rw [hg', portIn?_reindex, portIn?_of_node? (by rw [node?_evolve, Node.setPort_id, if_pos (hg.named hm)]),
      Node.portAt?_setPort, if_pos rfl]
  obtain ⟨path, c, c', hshown, hcid, hcw⟩ := hedit.shown?_target (hg.portIn?_sound (by rw [portIn?_of_node? hm, htop]))
  rw [henact]
  exact ⟨slot', top', path, c', hs, hafter, hshown, (Port.write_id hcw).trans hcid, Port.write_data hcw⟩

/-- What a port shows stays until its node is prepared or cleared, or something else is delivered there. -/
theorem Holds.enact (h : g.Holds id q w) (hg : g.WellFormed) (hd : ¬ g.Disturbs act q) (hclear : act ≠ .clear id)
    (hprepare : ∀ a, act = .prepare a → a.node ≠ id) : (g.enact act).Holds id q w := by
  obtain ⟨slot, top, path, c, hs, htop, hc, rfl, rfl⟩ := h
  have hsame : (g.enact act).portIn? id slot = g.portIn? id slot → (g.enact act).Holds id c.id c.data := fun h =>
    ⟨slot, top, path, c, hs, h.trans htop, hc, rfl, rfl⟩
  cases act with
  | prepare a =>
    refine hsame ?_
    rw [portIn?_prepare hg.toIdentified, if_neg fun h => hprepare a rfl h.1]
  | clear id' =>
    refine hsame ?_
    rw [portIn?_clear hg.toIdentified, if_neg fun h => hclear (congrArg _ h.1)]
  | offer o =>
    rcases portIn?_offer hg.toIdentified o with h | ⟨w, g', p, p', s', hanswer, hp, hpw, hafter⟩
    · exact hsame h
    · obtain rfl : top = p := Option.some.inj (htop.symm.trans hp)
      have hmem := Port.mem_flatten_of_atPath? (Port.atPath?_of_shown? hc)
      have hapart := apart_of_not_nested htop hmem fun hn => hd ⟨o, w, g', rfl, hanswer, hn⟩
      have hstays := (Port.edit_of_writeAt hpw).shown?_other (hg.portIn?_sound htop) hc hapart
      exact ⟨slot, p', path, c, hs, hafter, hstays, rfl, rfl⟩
  | _ => exact hsame (portIn?_neutral hg.toIdentified rfl (Slot.isOutput_of_isTrigger hs))

theorem Holds.replay {acts : List Act} (h : g.Holds id q w) (hg : g.WellFormed) (hu : Undisturbed q g acts)
    (hclear : .clear id ∉ acts) (hprepare : ∀ a, .prepare a ∈ acts → a.node ≠ id) : (g.replay acts).Holds id q w := by
  induction acts generalizing g with
  | nil => exact h
  | cons act acts ih =>
    rw [List.mem_cons, not_or] at hclear
    refine ih (h.enact hg hu.1 (Ne.symm hclear.1) fun a ha => ?_) (hg.enact act) hu.2 hclear.2 fun a ha => ?_
    · exact hprepare a (ha ▸ List.mem_cons_self)
    · exact hprepare a (List.mem_cons_of_mem _ ha)

/-- An activation finds what the ports of its node hold. -/
theorem Holds.presents {n : Node} (h : g.Holds n.id q w) (hg : g.WellFormed) (hn : g.node? n.id = some n)
    (iteration : Nat) (context : Context) : g.Presents (n.activation n.prepare.1 iteration context) q w := by
  obtain ⟨slot, top, path, c, hs, htop, hc, rfl, rfl⟩ := h
  refine ⟨slot, top, path, c, hs, htop, Port.atPath?_of_shown? hc, rfl,
    Port.at?_of_shown? (hg.portIn?_sound htop) hc, ?_⟩
  rintro name rfl
  have hfind : Keyed.find? name n.inputs = some top := by rwa [portIn?_of_node? hn] at htop
  show Keyed.find? name n.prepare.1.inputs = _
  rw [Node.find?_prepare_inputs, hfind]
  rfl

end Holds

/-! ### From the clearing of a node to its next activation -/

section Vacant

variable {g : Graph} {id : NodeId} {q : PortId} {act : Act}

theorem vacant_clear (hg : g.Identified) (id : NodeId) (q : PortId) : (g.enact (.clear id)).Vacant id q := by
  rintro slot top path c hs htop hc -
  rw [portIn?_clear hg, if_pos ⟨rfl, hs⟩] at htop
  obtain ⟨p, -, rfl⟩ := Option.map_eq_some_iff.1 htop
  rw [Port.atPath?_clear] at hc
  obtain ⟨b, -, rfl⟩ := Option.map_eq_some_iff.1 hc
  exact ⟨Port.clear_data b, Port.hasData_clear b⟩

/-- Reading changes nothing that counts as data. -/
theorem Vacant.prepare (h : g.Vacant id q) (hg : g.Identified) (a : Activation) :
    (g.enact (.prepare a)).Vacant id q := by
  intro slot top path c hs htop hc hq
  rw [portIn?_prepare hg] at htop
  split_ifs at htop with hid
  · obtain ⟨p, hp, rfl⟩ := Option.map_eq_some_iff.1 htop
    cases path with
    | nil =>
      cases hc
      exact h slot p [] p hs hp rfl hq
    | cons key path => exact h slot p (key :: path) c hs hp hc hq
  · exact h slot top path c hs htop hc hq

/-- An empty port stays empty until something is delivered there. -/
theorem Vacant.enact (h : g.Vacant id q) (hg : g.WellFormed) (hq : g.supply.Used q) (hd : ¬ g.Disturbs act q) :
    (g.enact act).Vacant id q := by
  cases act with
  | prepare a => exact h.prepare hg.toIdentified a
  | clear id' =>
    by_cases hid : id' = id
    · rw [hid]
      exact vacant_clear hg.toIdentified id q
    · intro slot top path c hs htop hc
      rw [portIn?_clear hg.toIdentified, if_neg fun h => hid h.1] at htop
      exact h slot top path c hs htop hc
  | offer o =>
    rintro slot top' path c hs htop' hc rfl
    rcases portIn?_offer hg.toIdentified o with hsame | ⟨w, g', top, p', s', hanswer, htop, hw, hafter⟩
    · exact h slot top' path c hs (hsame.symm.trans htop') hc rfl
    · obtain rfl : p' = top' := Option.some.inj (hafter.symm.trans htop')
      have hsound := hg.portIn?_sound htop
      have hmem := Port.mem_flatten_of_atPath? hc
      -- The port is no new one, so that it was there before the offer, and stayed as it was.
      have hold : c.id ∈ top.ids := by
        rcases (Port.renews_writeAt hw).mem c.id (Port.mem_ids_iff.2 ⟨c, hmem, rfl⟩) with hold | hnew
        · exact hold
        · exact absurd hq (not_lt.2 hnew.1)
      obtain ⟨b, hb, hbid⟩ := Port.mem_ids_iff.1 hold
      obtain ⟨path', hpath⟩ := Port.exists_atPath?_of_mem_flatten (hsound.imp fun _ hs => hs.nodup) hb
      have hapart := apart_of_not_nested htop hb fun hn => hd ⟨o, w, g', rfl, hanswer, hbid ▸ hn⟩
      have hstays := (Port.edit_of_writeAt hw).atPath?_other Port.fold_elements hsound hpath hapart
      have hnodup := (hg.toIdentified.enact (.offer o)).portIn?_nodup htop'
      rw [Port.ids_eq_map_flatten] at hnodup
      rw [List.inj_on_of_nodup_map hnodup hmem (Port.mem_flatten_of_atPath? hstays) hbid.symm]
      exact h slot top path' b hs htop hpath hbid
  | _ =>
    intro slot top path c hs htop hc
    rw [portIn?_neutral hg.toIdentified rfl (Slot.isOutput_of_isTrigger hs)] at htop
    exact h slot top path c hs htop hc

theorem Vacant.replay {acts : List Act} (h : g.Vacant id q) (hg : g.WellFormed) (hq : g.supply.Used q)
    (hu : Undisturbed q g acts) : (g.replay acts).Vacant id q := by
  induction acts generalizing g with
  | nil => exact h
  | cons act acts ih =>
    exact ih (h.enact hg hq hu.1) (hg.enact act) (hq.mono (supply_enact_le hg.toIdentified act)) hu.2

/-- An activation finds nothing at an empty port. -/
theorem Vacant.presents {a : Activation} {w : Value} (h : g.Vacant id q) (hid : a.node = id) (hg : g.WellFormed)
    (hp : g.Presents a q w) : w = .null := by
  subst hid
  obtain ⟨slot, top, path, c, hs, htop, hc, hcid, hw, -⟩ := hp
  rw [Port.eq_data_of_at? (hg.portIn?_sound htop) hc hw]
  exact (h slot top path c hs htop hc hcid).1

theorem undisturbed_append {acts acts' : List Act} :
    Undisturbed q g (acts ++ acts') ↔ Undisturbed q g acts ∧ Undisturbed q (g.replay acts) acts' := by
  induction acts generalizing g with
  | nil => simp [Undisturbed]
  | cons act acts ih =>
    rw [List.cons_append, Undisturbed, Undisturbed, ih, and_assoc, replay_cons]

end Vacant

/-! ### Delivery -/

/-- Values are delivered exactly once by the acts that follow a graph. -/
structure DeliversOnce (g : Graph) (acts : List Act) : Prop where
  /-- A value that is stored at an input is presented to the next activation of its node, unless another one is
  stored there before. -/
  presented : ∀ {before between after : List Act} {o : Offer} {w : Value} {g' : Graph} {n : Node} {a : Activation},
    acts = before ++ .offer o :: (between ++ .prepare a :: after) →
    (g.replay before).answer? o = some (.ok (w, g')) →
    (g.replay before).node? a.node = some n → o.edge.target ∈ n.triggerIds →
    (∀ b, .prepare b ∈ between → b.node ≠ a.node) → Undisturbed o.edge.target g' between →
    (g.replay (before ++ .offer o :: between)).Presents a o.edge.target w
  /-- What was presented to an activation is gone before the following ones: at the same port they find nothing,
  unless another value is stored there. -/
  once : ∀ {before between after : List Act} {a b : Activation} {q : PortId} {w : Value},
    acts = before ++ .prepare a :: (between ++ .prepare b :: after) → b.node = a.node →
    (g.replay before).Presents a q w → Undisturbed q (g.replay (before ++ [.prepare a])) between →
    (g.replay (before ++ .prepare a :: between)).Vacant b.node q ∧
      ∀ v, (g.replay (before ++ .prepare a :: between)).Presents b q v → v = .null
  /-- Between an activation and the clearing of its inputs, nothing is stored anywhere. -/
  kept : ∀ {before after : List Act} {id : NodeId}, acts = before ++ .clear id :: after →
    ∃ earlier a later, before = earlier ++ .prepare a :: later ∧ a.node = id ∧
      ∀ act ∈ later, (∀ o, act ≠ .offer o) ∧ ∀ b, act = .prepare b → b.node ≠ id

end Graph

namespace Run

/-- **Every run delivers exactly once.** On a well-formed graph, a value that is stored at a data input or at an
execution trigger is presented to the next activation of the node and to no other one, and no clearing wipes
what came after the activation that it ends. -/
theorem delivers_once {x : Executor} {g : Graph} {context : Context} {mode : StartMode} {now : Nat} {r₀ r : Run}
    {acts : List Act} (hg : g.WellFormed) (hstart : start x g context mode now = .ok r₀) (hrun : Leads r₀ acts r) :
    r₀.graph.DeliversOnce acts := by
  have hg₀ := start_wellFormed hg hstart
  have hidle : Opens ∅ r₀.phase := by rw [(start_eq hstart).1]; rfl
  obtain ⟨s, horderly, -⟩ := hrun.orderly hg₀.toIdentified hidle
  constructor
  · intro before between after o w g' n a hacts hanswer hn htarget hnext hundisturbed
    subst hacts
    obtain ⟨s₁, -, hrest⟩ := horderly.split
    obtain ⟨rfl, hafter⟩ := hrest.offer_inv
    obtain ⟨s₂, hbetween, hlast⟩ := hafter.split
    obtain ⟨-, ⟨m, iteration, context, hm, rfl⟩, -⟩ := hlast.prepare_inv
    have henact : (r₀.graph.replay before).enact (.offer o) = g' := by simp only [Graph.enact, hanswer]
    have hholds := Graph.holds_offer (hg₀.replay before) hanswer hn htarget
    have hg' : g'.WellFormed := henact ▸ (hg₀.replay before).enact (.offer o)
    rw [henact] at hholds hbetween hm
    -- The node is not open, so that it is not cleared before it is prepared again.
    have hclear := hbetween.notMem_clear (Set.notMem_empty m.id) hnext
    rw [Graph.replay_append, Graph.replay_cons, henact]
    exact (hholds.replay hg' hundisturbed hclear hnext).presents (hg'.replay between) hm iteration context
  · intro before between after a b q w hacts hnode hpresents hundisturbed
    subst hacts
    obtain ⟨s₁, -, hrest⟩ := horderly.split
    obtain ⟨-, -, hrest⟩ := hrest.prepare_inv
    obtain ⟨s₂, hbetween, hlast⟩ := hrest.split
    obtain ⟨hclosed, -, -⟩ := hlast.prepare_inv
    rw [hnode] at hclosed ⊢
    have hclear := hbetween.clear_of_notMem (Set.mem_insert a.node s₁) hclosed
    obtain ⟨earlier, later, rfl⟩ := List.append_of_mem hclear
    have hused : (r₀.graph.replay before).supply.Used q := by
      obtain ⟨slot, top, path, c, -, htop, hc, rfl, -⟩ := hpresents
      exact (hg₀.replay before).portIn?_used htop (Port.mem_ids_iff.2 ⟨c, Port.mem_flatten_of_atPath? hc, rfl⟩)
    have hsplit : before ++ .prepare a :: (earlier ++ .clear a.node :: later) =
        (before ++ .prepare a :: earlier) ++ .clear a.node :: later := by simp
    have hg₁ := hg₀.replay (before ++ .prepare a :: earlier)
    have hused₁ : (r₀.graph.replay (before ++ .prepare a :: earlier)).supply.Used q := by
      rw [Graph.replay_append]
      exact hused.mono (Graph.supply_replay_le (hg₀.replay before).toIdentified _)
    rw [Graph.undisturbed_append, ← Graph.replay_append, List.append_assoc, List.singleton_append] at hundisturbed
    rw [hsplit, Graph.replay_append, Graph.replay_cons]
    have hvacant := (Graph.vacant_clear hg₁.toIdentified a.node q).replay (hg₁.enact _)
      (hused₁.mono (Graph.supply_enact_le hg₁.toIdentified _)) hundisturbed.2.2
    exact ⟨hvacant, fun v hv => hvacant.presents hnode ((hg₁.enact _).replay later) hv⟩
  · intro before after id hacts
    subst hacts
    obtain ⟨s₁, hbefore, hrest⟩ := horderly.split
    rcases hbefore.prepared_of_mem hrest.clear_inv with ⟨hnone, -⟩ | hprepared
    · exact absurd hnone (Set.notMem_empty id)
    · exact hprepared

theorem delivers_once_signal : signalStart.graph.DeliversOnce (signalStart.trail signalPath) ∧
    ∃ before o between a after, signalStart.trail signalPath = before ++ .offer o :: (between ++ .prepare a :: after) ∧
      a.node = ⟨2⟩ :=
  ⟨delivers_once Graph.wellFormed_signalPair start_signal leads_signal,
    (signalStart.trail signalPath).take 4, ⟨⟨⟨4⟩, ⟨5⟩⟩, .null⟩, ((signalStart.trail signalPath).drop 5).take 1, _,
    (signalStart.trail signalPath).drop 7, rfl, rfl⟩

end Run

end Dataflow
