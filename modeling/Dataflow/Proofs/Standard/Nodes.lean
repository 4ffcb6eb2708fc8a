import Dataflow.Proofs.Node.Making
import Dataflow.Proofs.Run.Lanes
import Dataflow.Standard

/-!
# What the standard nodes make of what has come

* `Node.Performs` says that a node does what a behavior says, and `Node.performs_create` that a new node does;
* `Standard.performs_construct`: so does a node that the registry makes, for which `Standard.behavior_constant` and the
  theorems beside it say what the behavior of its type is;
* `Standard.yields_constant`, `Standard.yields_log`, `Standard.yields_distribute`: what the next activation of such a node comes
  to;
* `Standard.relays_through`: a relay passes on whatever comes.
-/

namespace Dataflow

open Keyed

/-- The name of a place that is a data input. -/
def Slot.inputName? : Slot → Option String
  | input name => some name
  | _ => none

namespace Node

variable {n n' : Node} {b : Behavior}

/-- A node that does what a behavior says. It is not switched off, and its ports have the types that the behavior declares. -/
structure Performs (b : Behavior) (n : Node) : Prop where
  behavior : n.behavior = b
  enabled : n.isDisabled = false
  typed : ∀ d ∈ b.ports, ∀ p, n.portAt? (slotOf d) = some p → p.dataType = d.dataType

theorem Becomes.declared (h : n.Becomes n') (hd : n.Declared) : n'.Declared := by
  intro slot
  have hface := congrArg Option.isSome (h.faces slot)
  rw [Option.isSome_map, Option.isSome_map] at hface
  rw [hface, h.behavior]
  exact hd slot

theorem Performs.becomes (h : n.Performs b) (hn : n.Becomes n') : n'.Performs b where
  behavior := hn.behavior.trans h.behavior
  enabled := hn.isDisabled.trans h.enabled
  typed d hd p hp := by
    have hface := hn.faces (slotOf d)
    rw [hp] at hface
    obtain ⟨p₀, hp₀, heq⟩ := Option.map_eq_some_iff.1 hface.symm
    rw [← (Prod.mk.inj heq).2]
    exact h.typed d hd p₀ hp₀

/-- A declared port is there, with the declared type. -/
theorem Performs.exists_port (h : n.Performs b) (hn : n.Declared) {d : PortDefinition} (hd : d ∈ b.ports) :
    ∃ p, n.portAt? (slotOf d) = some p ∧ p.dataType = d.dataType := by
  have hsome : (n.portAt? (slotOf d)).isSome := by
    rw [hn, h.behavior, declaredSlots]
    exact List.mem_append_right _ (List.mem_map_of_mem hd)
  obtain ⟨p, hp⟩ := Option.isSome_iff_exists.1 hsome
  exact ⟨p, hp, h.typed d hd p hp⟩

/-- If a behavior declares one data input, its nodes have just this one. -/
theorem Performs.inputs_eq (h : n.Performs b) (hn : n.Declared) (ho : n.Ordered) (name : String)
    (hone : (declaredSlots b).filterMap Slot.inputName? = [name]) : ∃ p, n.inputs = [(name, p)] := by
  have hmem : ∀ other, other ∈ keys n.inputs ↔ other ∈ [name] := fun other => by
    rw [← find?_isSome, ← hone, List.mem_filterMap]
    refine (hn (.input other)).trans ⟨fun hin => ⟨_, h.behavior ▸ hin, rfl⟩, fun ⟨slot, hin, hname⟩ => ?_⟩
    cases slot with
    | input => cases hname; exact h.behavior ▸ hin
    | _ => cases hname
  have hkeys : keys n.inputs = [name] := List.Perm.eq_singleton
    ((List.perm_ext_iff_of_nodup ho.inputs.nodup (List.nodup_singleton name)).2 hmem)
  obtain ⟨⟨name', p⟩, hinputs, hname⟩ := List.map_eq_singleton_iff.1 hkeys
  exact ⟨p, by rw [hinputs, ← show name' = name from hname]⟩

/-- Ports that are added leave those in other places alone. -/
theorem portAt?_addPorts {slot : Slot} (definitions : List PortDefinition) (n : Node) (s : Supply)
    (hslot : slot ∉ definitions.map slotOf) : (addPorts definitions n s).1.portAt? slot = n.portAt? slot := by
  induction definitions generalizing n s with
  | nil => rfl
  | cons d rest ih =>
    rw [List.map_cons, List.mem_cons, not_or] at hslot
    rw [addPorts, ih _ _ hslot.2, portAt?_setPort, if_neg (Ne.symm hslot.1)]

theorem dataType_addPorts {d : PortDefinition} {p : Port} (definitions : List PortDefinition) (n : Node) (s : Supply)
    (hapart : (definitions.map slotOf).Nodup) (hd : d ∈ definitions)
    (hp : (addPorts definitions n s).1.portAt? (slotOf d) = some p) : p.dataType = d.dataType := by
  induction definitions generalizing n s with
  | nil => exact absurd hd List.not_mem_nil
  | cons first rest ih =>
    obtain ⟨hnew, hapart⟩ := List.nodup_cons.1 hapart
    rcases List.mem_cons.1 hd with rfl | hd
    · rw [addPorts, portAt?_addPorts rest _ _ hnew, portAt?_setPort, if_pos rfl] at hp
      rw [← Option.some.inj hp]
      rfl
    · exact ih _ _ hapart hd hp

/-- A new node does what its behavior says, unless two of its ports are declared in one place. -/
theorem performs_create (id : NodeId) (label : String) {config : Config} (s : Supply) (hb : (b.ports.map slotOf).Nodup)
    (hconfig : Config.isOn disabledKey config = false) : (create id label b config s).1.Performs b := by
  obtain ⟨-, -, hconfig', hbehavior⟩ := create_fixed id label b config s
  exact ⟨hbehavior, by rw [isDisabled, hconfig', hconfig], fun d hd p hp => dataType_addPorts b.ports _ _ hb hd hp⟩

/-- A value is accepted for the output of its name if it is taken there as it is. -/
theorem accepts_single {name : String} {v : Value} {p : Port} (hp : n.portAt? (.output name) = some p)
    (hv : v.convert p.dataType = .ok v) : n.Accepts (.single name v) where
  takes e he := by
    obtain rfl : e = (.output name, v) := List.mem_singleton.1 he
    exact ⟨p, hp, hv⟩
  outputs := List.nodup_singleton name
  controls := List.nodup_nil

/-- What a node with one data input finds there when it is activated. -/
theorem lookup_prepare {name : String} {p : Port} (hn : n.inputs = [(name, p)]) :
    NamedValues.lookup name n.prepare.1.inputs = (n.held? (.input name)).filter fun v => !v.isNull := by
  rw [inputs_prepare hn, NamedValues.lookup, find?_cons, if_pos rfl]
  cases n.held? (.input name) with
  | none => rfl
  | some v => rfl

/-- A value that was looked up is found again, since `null` stands for nothing. -/
theorem getD_filter_isNull (v : Value) : ((some v).filter fun v => !v.isNull).getD .null = v := by
  cases v <;> rfl

end Node

namespace Standard

variable {n : Node} {v : Value}

/-! ### Nodes of the registry -/

theorem behavior_constant (config : Config) : registry.behavior "value.constant" config =
    .ok (constantBehavior (Config.getOr "value" .null config) (Config.isOn "repeat" config)) := rfl

theorem behavior_distribute (config : Config) : registry.behavior "flow.distribute" config = .ok distributeBehavior := rfl

theorem behavior_relay (config : Config) : registry.behavior "flow.relay" config = .ok relayBehavior := rfl

theorem behavior_log (config : Config) : registry.behavior "debug.log" config = .ok logBehavior := rfl

/-- A node that the registry makes does what the behavior of its type says, unless its settings switch it off. -/
theorem performs_construct {typeId label : String} {id : NodeId} {config : Config} {s s' : Supply} {b : Behavior}
    (h : registry.construct typeId id label config s = .ok (n, s')) (hb : registry.behavior typeId config = .ok b)
    (hapart : (b.ports.map Node.slotOf).Nodup) (hconfig : Config.isOn Node.disabledKey config = false) : n.Performs b := by
  obtain ⟨b', hb', hn⟩ := Except.map_eq_ok.1 h
  obtain rfl : b' = b := Except.ok.inj (hb'.symm.trans hb)
  rw [← show (Node.create id label b' config s).1 = n by rw [hn]]
  exact Node.performs_create id label s hapart hconfig

/-! ### Activations -/

theorem yields_constant {again : Bool} (h : n.Performs (constantBehavior v again)) (hn : n.Declared)
    (hv : v.convert v.dataType = .ok v) : n.Yields n.memory (.single "value" v) := by
  obtain ⟨p, hp, htype⟩ := h.exists_port hn (d := .output "value" v.dataType) (List.mem_singleton_self _)
  refine ⟨fun context iteration => ?_, Node.accepts_single hp (by rw [htype]; exact hv)⟩
  rw [Node.script, h.behavior]
  exact .finish

theorem yields_log (h : n.Performs logBehavior) (hn : n.Declared) (ho : n.Ordered)
    (hv : n.held? (.input "message") = some v) : n.Yields n.memory (.single "message" v) := by
  obtain ⟨p, hp, htype⟩ := h.exists_port hn (d := .output "message" .null) (List.mem_cons_of_mem _ List.mem_cons_self)
  obtain ⟨q, hinputs⟩ := h.inputs_eq hn ho "message" rfl
  refine ⟨fun context iteration => ?_, Node.accepts_single hp (Value.convert_null (Or.inr htype))⟩
  have hmessage : (NamedValues.lookup "message" n.prepare.1.inputs).getD .null = v := by
    rw [Node.lookup_prepare hinputs, hv, Node.getD_filter_isNull]
  simp only [Node.script, h.behavior, logBehavior, Node.activation, hmessage]
  exact .emit .finish

theorem relays_through (h : n.Performs relayBehavior) (hn : n.Declared) : n.Relays "in" "out" where
  direct := by rw [Node.isDirectThrough, h.behavior]; rfl
  enabled := h.enabled
  takes := h.typed (.input "in" .null) List.mem_cons_self
  yields n' hbecomes ho v hv := by
    have h' := h.becomes hbecomes
    have hn' := hbecomes.declared hn
    obtain ⟨p, hp, htype⟩ := h'.exists_port hn' (d := .output "out" .null) (List.mem_cons_of_mem _ List.mem_cons_self)
    obtain ⟨q, hinputs⟩ := h'.inputs_eq hn' ho "in" rfl
    refine ⟨fun context iteration => ?_, Node.accepts_single hp (Value.convert_null (Or.inr htype))⟩
    have hin : (NamedValues.lookup "in" n'.prepare.1.inputs).getD .null = v := by
      rw [Node.lookup_prepare hinputs, hv, Node.getD_filter_isNull]
    simp only [Node.script, h'.behavior, relayBehavior, Node.activation, hin]
    exact .finish

/-- What is left of some elements that wait when the first of them is emitted, and what is put out then. -/
def emission : List Value → Memory × Output
  | [] => ([], .empty)
  | item :: rest => (rest, ⟨[("item", item)], [("remaining", .integer rest.length)]⟩)

theorem emission_prompt (waiting : List Value) (memory : Memory) :
    (emitNext waiting).Prompt memory (.ok (emission waiting).2) (emission waiting).1 := by
  cases waiting <;> exact .remember .finish

/-- Elements that have come are appended to those that wait, and one is emitted. -/
theorem yields_distribute (h : n.Performs distributeBehavior) (hn : n.Declared) (ho : n.Ordered)
    {items : Option (List Value)} (hitems : n.held? (.input "items") = items.map .array) :
    n.Yields (emission (n.memory ++ items.getD [])).1 (emission (n.memory ++ items.getD [])).2 := by
  obtain ⟨q, hinputs⟩ := h.inputs_eq hn ho "items" rfl
  refine ⟨fun context iteration => ?_, ?_⟩
  · have hscript : n.script context iteration = emitNext (n.memory ++ items.getD []) := by
      have hlookup := Node.lookup_prepare hinputs
      rw [hitems] at hlookup
      simp only [Node.script, h.behavior, distributeBehavior, Node.activation, hlookup]
      cases items with
      | none => simp
      | some items => rfl
    rw [hscript]
    exact emission_prompt ..
  · obtain ⟨p, hp, htype⟩ := h.exists_port hn (d := .output "item" .null) (List.mem_cons_of_mem _ List.mem_cons_self)
    obtain ⟨c, hc, hctype⟩ := h.exists_port hn (d := .controlOutput "remaining" .integer)
      (List.mem_cons_of_mem _ (List.mem_cons_of_mem _ List.mem_cons_self))
    cases n.memory ++ items.getD [] with
    | nil => exact ⟨fun _ he => absurd he List.not_mem_nil, List.nodup_nil, List.nodup_nil⟩
    | cons item rest =>
      refine ⟨List.forall_mem_cons.2 ⟨⟨p, hp, Value.convert_null (Or.inr htype)⟩, ?_⟩, List.nodup_singleton _,
        List.nodup_singleton _⟩
      refine List.forall_mem_singleton.2 ⟨c, hc, ?_⟩
      rw [hctype]
      exact Value.convert_own fun _ heq => by cases heq

end Standard

end Dataflow
