import Dataflow.Proofs.Node

/-!
# Making nodes and changing their types

* `Node.Declared` says that a node has exactly the places that its behavior declares;
* `Node.fresh_create`: a new node is sound, legal and has ports of its own;
* `Node.Renews.declared`, `Node.legal_setPortType`: later changes keep to this;
* `Node.renews_setPortType`: a change of type renews identifiers as a write does.
-/

namespace Dataflow

namespace Node

open Keyed

/-- The places that a behavior declares, with those of the triggers. -/
def declaredSlots (b : Behavior) : List Slot :=
  [.execIn, .execOut] ++ b.ports.map slotOf

/-- A node has the places that its behavior declares. -/
def Declared (n : Node) : Prop :=
  ∀ slot, (n.portAt? slot).isSome ↔ slot ∈ declaredSlots n.behavior

theorem side_slotOf (d : PortDefinition) : (slotOf d).side = d.direction := by
  obtain ⟨name, direction, kind, t⟩ := d
  cases kind <;> cases direction <;> rfl

section SetPort

variable {n : Node} {slot : Slot} {p : Port}

theorem isSome_portAt?_setPort (slot' : Slot) :
    ((n.setPort slot p).portAt? slot').isSome ↔ slot' = slot ∨ (n.portAt? slot').isSome := by
  rw [portAt?_setPort]
  split_ifs with heq
  · simp [heq]
  · simp [Ne.symm heq]

end SetPort

/-! ### New nodes -/

/-- What a new node keeps to: its ports have identifiers that were drawn for them. -/
structure Fresh (s : Supply) (n : Node) (s' : Supply) : Prop where
  sound : n.Sound
  legal : n.Legal
  declared : n.Declared
  drawn : s.Renews [] s' n.portIds

/-- What each new port passes on holds of a node with all of its ports. -/
theorem addPorts_induction {P : Node → Supply → Prop}
    (step : ∀ (d : PortDefinition) (n : Node) (s : Supply), P n s →
      P (n.setPort (slotOf d) (Port.new ⟨s.next⟩ d.name d.direction d.kind d.dataType)) ⟨s.next + 1⟩)
    (definitions : List PortDefinition) {n : Node} {s : Supply} (h : P n s) :
    P (addPorts definitions n s).1 (addPorts definitions n s).2 := by
  induction definitions generalizing n s with
  | nil => exact h
  | cons d rest ih => exact ih (step d n s h)

theorem isSome_portAt?_addPorts (definitions : List PortDefinition) (n : Node) (s : Supply) (slot : Slot) :
    ((addPorts definitions n s).1.portAt? slot).isSome ↔
      (n.portAt? slot).isSome ∨ slot ∈ definitions.map slotOf := by
  induction definitions generalizing n s with
  | nil => simp [addPorts]
  | cons d rest ih =>
    rw [addPorts, ih, isSome_portAt?_setPort, List.map_cons, List.mem_cons]
    tauto

section Create

variable (id : NodeId) (label : String) (b : Behavior) (config : Config) (s : Supply)

/-- A node with its triggers alone. -/
def bare : Node :=
  { id, label, config, behavior := b, memory := [], status := .idle, lastError := none,
    execIn := Port.new ⟨s.next⟩ triggerName .input .exec .null,
    execOut := Port.new ⟨s.next + 1⟩ triggerName .output .exec .null,
    inputs := [], outputs := [], controlInputs := [], controlOutputs := [] }

theorem create_eq : create id label b config s = addPorts b.ports (bare id label b config s) ⟨s.next + 2⟩ := rfl

theorem portAt?_bare {slot : Slot} {p : Port} (h : (bare id label b config s).portAt? slot = some p) :
    slot = .execIn ∧ p = Port.new ⟨s.next⟩ triggerName .input .exec .null ∨
      slot = .execOut ∧ p = Port.new ⟨s.next + 1⟩ triggerName .output .exec .null := by
  cases slot <;> cases h
  · exact Or.inl ⟨rfl, rfl⟩
  · exact Or.inr ⟨rfl, rfl⟩

theorem create_fixed :
    (create id label b config s).1.id = id ∧ (create id label b config s).1.label = label ∧
      (create id label b config s).1.config = config ∧ (create id label b config s).1.behavior = b := by
  rw [create_eq]
  refine addPorts_induction (P := fun n _ => n.id = id ∧ n.label = label ∧ n.config = config ∧ n.behavior = b)
    (fun d n s h => ?_) b.ports ⟨rfl, rfl, rfl, rfl⟩
  rw [setPort_id, setPort_label, setPort_config, setPort_behavior]
  exact h

theorem fresh_create : Fresh s (create id label b config s).1 (create id label b config s).2 := by
  have hsound : (bare id label b config s).Sound := by
    refine ⟨⟨ascending_nil, ascending_nil, ascending_nil, ascending_nil⟩, fun {slot p} h => ?_⟩
    rcases portAt?_bare _ _ _ _ _ h with ⟨-, rfl⟩ | ⟨-, rfl⟩ <;> exact Port.sound_new _ _ _ _ _
  have hlegal : (bare id label b config s).Legal := by
    intro slot p h
    rcases portAt?_bare _ _ _ _ _ h with ⟨rfl, rfl⟩ | ⟨rfl, rfl⟩ <;> exact Port.legal_new _ _ _ _ _
  have hdrawn : s.Renews [] ⟨s.next + 2⟩ (bare id label b config s).portIds := by
    have hids : (bare id label b config s).portIds = [⟨s.next⟩, ⟨s.next + 1⟩] := rfl
    rw [hids]
    refine ⟨Nat.le_add_right .., fun i hi => Or.inr ?_, fun _ _ => by simp⟩
    simp only [List.mem_cons, List.not_mem_nil, or_false] at hi
    rcases hi with rfl | rfl
    · exact ⟨le_rfl, Nat.lt_add_of_pos_right (by decide)⟩
    · exact ⟨Nat.le_succ _, Nat.lt_succ_self _⟩
  rw [create_eq]
  have hkeep := addPorts_induction
    (P := fun n s' => n.Sound ∧ n.Legal ∧ s.Renews [] s' n.portIds) (fun d n s' ⟨hs, hl, hr⟩ => ?_)
    b.ports ⟨hsound, hlegal, hdrawn⟩
  · refine ⟨hkeep.1, hkeep.2.1, fun slot => ?_, hkeep.2.2⟩
    rw [isSome_portAt?_addPorts, ← create_eq, (create_fixed id label b config s).2.2.2, declaredSlots,
      List.mem_append]
    refine or_congr_left ⟨fun h => ?_, fun h => ?_⟩
    · obtain ⟨p, hp⟩ := Option.isSome_iff_exists.1 h
      rcases portAt?_bare _ _ _ _ _ hp with ⟨rfl, -⟩ | ⟨rfl, -⟩ <;> simp
    · simp only [List.mem_cons, List.not_mem_nil, or_false] at h
      rcases h with rfl | rfl <;> rfl
  · refine ⟨hs.setPort (Port.sound_new _ _ _ _ _), hl.setPort ?_, hr.trans (renews_setPort hs.ordered ?_)⟩
    · rw [side_slotOf]
      exact Port.legal_new _ _ _ _ _
    · refine ⟨Nat.le_succ _, fun i hi => Or.inr ?_, fun _ _ => by simp⟩
      rw [Port.ids_new, List.mem_singleton] at hi
      subst hi
      exact ⟨le_rfl, Nat.lt_succ_self _⟩

end Create

/-! ### Later changes -/

section Changes

variable {n n' : Node} {id : PortId} {s s' : Supply}

theorem Renews.declared (h : Renews s n s' n') (hn : n.Declared) : n'.Declared := by
  intro slot
  rw [h.occupied, h.behavior]
  exact hn slot

theorem setPortType_eq_some {t : DataType} (hn : n.Ordered) (hd : n.portIds.Nodup)
    (h : n.setPortType id t s = some (n', s')) :
    ∃ slot top top', n.portAt? slot = some top ∧ n' = n.setPort slot top' ∧
      Port.Edit (fun r => r) id (fun x x' => x' = (x.setDataType t s).1 ∧ s' = (x.setDataType t s).2) top top' := by
  simp only [setPortType, Option.bind_eq_bind, Option.bind_eq_some_iff] at h
  obtain ⟨c, hc, m, hm, heq⟩ := h
  cases heq
  obtain ⟨slot, top, top', htop, rfl, hedit⟩ := replacePort?_edit hn hd hc hm
  refine ⟨slot, top, top', htop, rfl, hedit.imp fun x x' ⟨hx, hx'⟩ => ?_⟩
  subst hx
  exact ⟨hx', rfl⟩

theorem renews_setPortType {t : DataType} (hn : n.Ordered) (hd : n.portIds.Nodup)
    (h : n.setPortType id t s = some (n', s')) : Renews s n s' n' := by
  obtain ⟨slot, top, top', htop, rfl, hedit⟩ := setPortType_eq_some hn hd h
  refine renews_setPort_of_some htop (hedit.renews (fun _ => rfl) (fun _ => rfl) fun x x' ⟨hx', hs'⟩ => ?_)
  rw [hx', hs']
  exact Port.renews_setDataType x t s

theorem legal_setPortType {t : DataType} (hn : n.Ordered) (hd : n.portIds.Nodup)
    (h : n.setPortType id t s = some (n', s')) (hl : n.Legal) : n'.Legal := by
  obtain ⟨slot, top, top', htop, rfl, hedit⟩ := setPortType_eq_some hn hd h
  refine hl.setPort (hedit.every (fun _ => rfl) (fun r es hr hne => ?_)
    (fun x x' ⟨hx', _⟩ hx => ?_) (hl slot top htop))
  · exact ⟨hr.direction, hr.typed, hr.counted, fun hc => absurd (hr.bare hc) hne⟩
  · rw [hx']
    exact Port.legal_setDataType x t s hx

end Changes

end Node

end Dataflow
