import Dataflow.Proofs.Node.Consumption
import Dataflow.Proofs.Run.Arrivals

/-!
# What a whole activation makes of a node

An activation that comes to an output consumes the inputs of its node, writes the output and clears the inputs. Nothing of
this touches what the node is wired by.

* `Node.Becomes` says that a node is another one later on: its settings, and the identifiers and types of its ports, stay;
* `Node.held?` is the value that waits in a place to be consumed, and `Node.fresh?` the one that waits to be moved;
* `Node.Accepts` says that a node takes all values of an output as they are;
* `Node.Turned` puts together what a whole activation comes to, and `Node.turned` says that it is so.
-/

namespace Dataflow

open Keyed

namespace Port

variable {p p' : Port} {v : Value}

/-- What stays of a port: its identifier and its type. -/
def face (p : Port) : PortId × DataType :=
  (p.id, p.dataType)

/-- The value of a port that was written since it was cleared. -/
def held? (p : Port) : Option Value :=
  if p.hasData then some p.data else none

/-- The value of a port that was written since it was read. -/
def fresh? (p : Port) : Option Value :=
  if p.hasNewData then some p.data else none

/-- A port that has stored a value as it is. -/
structure Stores (v : Value) (p p' : Port) : Prop where
  face : p'.face = p.face
  data : p'.data = v
  version : p'.version = p.version + 1
  lastRead : p'.lastRead = p.lastRead

/-- A port stores the values that need no conversion. -/
theorem stores_write (h : v.convert p.dataType = .ok v) (s : Supply) :
    ∃ p' s', p.write v s = .ok (v, p', s') ∧ Stores v p p' := by
  unfold write
  cases hv : v.isNull with
  | true =>
    obtain rfl : v = .null := by cases v <;> first | rfl | cases hv
    exact ⟨_, s, rfl, rfl, rfl, rfl, rfl⟩
  | false =>
    refine ⟨(store v p s).1, (store v p s).2, by rw [h]; rfl, ?_, ?_, ?_, ?_⟩
    · simp [store, bump, face]
    · simp [store]
    · simp [store, bump]
    · simp [store, bump]

theorem Stores.held? (h : Stores v p p') : p'.held? = some v := by
  have hdata : p'.hasData = true := by simp [hasData, h.version]
  rw [Port.held?, if_pos hdata, h.data]

theorem Stores.fresh? (h : Stores v p p') (hcount : p.lastRead ≤ p.version) : p'.fresh? = some v := by
  have hnew : p'.hasNewData = true := by
    rw [hasNewData, h.version, h.lastRead, decide_eq_true_eq]
    omega
  rw [Port.fresh?, if_pos hnew, h.data]

theorem held?_clear (p : Port) : p.clear.held? = none := by
  rw [held?, hasData_clear]
  rfl

/-- What a port holds, it shows; an empty one shows `null`. -/
theorem data_eq (p : Port) : p.data = p.held?.getD .null := by
  unfold held? hasData
  split_ifs with h
  · rfl
  · rw [Bool.or_eq_true, not_or] at h
    cases hd : p.data <;> simp_all [Value.isNull]

end Port

/-- The values of an output with their places. -/
def Output.values (o : Output) : List (Slot × Value) :=
  o.outputs.map (fun e => (.output e.1, e.2)) ++ o.controls.map fun e => (.controlOutput e.1, e.2)

namespace Node

variable {n n' n'' : Node} {slot : Slot} {v : Value} {o : Output}

/-! ### What stays of a node -/

/-- A node that another one has become: its settings are the same, and the ports in its places have the same identifiers and
types. -/
structure Becomes (n n' : Node) : Prop where
  id : n'.id = n.id
  label : n'.label = n.label
  config : n'.config = n.config
  behavior : n'.behavior = n.behavior
  faces : ∀ slot, (n'.portAt? slot).map Port.face = (n.portAt? slot).map Port.face

theorem Becomes.refl (n : Node) : n.Becomes n :=
  ⟨rfl, rfl, rfl, rfl, fun _ => rfl⟩

theorem Becomes.trans (h : n.Becomes n') (h' : n'.Becomes n'') : n.Becomes n'' where
  id := h'.id.trans h.id
  label := h'.label.trans h.label
  config := h'.config.trans h.config
  behavior := h'.behavior.trans h.behavior
  faces slot := (h'.faces slot).trans (h.faces slot)

theorem Becomes.isDisabled (h : n.Becomes n') : n'.isDisabled = n.isDisabled := by
  rw [Node.isDisabled, h.config, Node.isDisabled]

theorem Becomes.portAt? (h : n.Becomes n') {p : Port} (hp : n.portAt? slot = some p) :
    ∃ p', n'.portAt? slot = some p' ∧ p'.id = p.id ∧ p'.dataType = p.dataType := by
  have hface := h.faces slot
  rw [hp] at hface
  obtain ⟨p', hp', heq⟩ := Option.map_eq_some_iff.1 hface
  obtain ⟨hid, htype⟩ := Prod.mk.inj heq
  exact ⟨p', hp', hid, htype⟩

theorem becomes_setPort {p p' : Port} (hp : n.portAt? slot = some p) (hface : p'.face = p.face) :
    n.Becomes (n.setPort slot p') where
  id := setPort_id ..
  label := setPort_label ..
  config := setPort_config ..
  behavior := setPort_behavior ..
  faces slot' := by
    rw [portAt?_setPort]
    split_ifs with heq
    · rw [← heq, hp, Option.map_some, Option.map_some, hface]
    · rfl

/-- A node becomes what a change of its ports makes of it that leaves their identifiers and types alone. -/
theorem becomes_of_portAt? {f : Port → Port} (places : Slot → Bool) (hid : n'.id = n.id) (hlabel : n'.label = n.label)
    (hconfig : n'.config = n.config) (hbehavior : n'.behavior = n.behavior)
    (hat : ∀ slot, n'.portAt? slot = if places slot = true then (n.portAt? slot).map f else n.portAt? slot)
    (hf : ∀ p, (f p).face = p.face) : n.Becomes n' := by
  refine ⟨hid, hlabel, hconfig, hbehavior, fun slot => ?_⟩
  rw [hat]
  split_ifs
  · rw [Option.map_map]
    exact congrArg (fun g => (n.portAt? slot).map g) (funext hf)
  · rfl

theorem becomes_prepare (n : Node) : n.Becomes n.prepare.2 :=
  becomes_of_portAt? Slot.isTrigger rfl rfl rfl rfl (fun slot => n.portAt?_prepare slot) fun _ => rfl

theorem becomes_clearInputs (n : Node) : n.Becomes n.clearInputs :=
  becomes_of_portAt? Slot.isTrigger rfl rfl rfl rfl (fun slot => n.portAt?_clearInputs slot) fun p => by
    rw [Port.face, Port.clear_id, Port.clear_dataType, Port.face]

theorem becomes_consume (n : Node) (ids : List PortId) : n.Becomes (n.consume ids) :=
  becomes_of_portAt? Slot.isOutput rfl rfl rfl rfl (fun slot => n.portAt?_consume ids slot) fun p => by
    rw [Port.consume_eq]
    rfl

theorem becomes_status (n : Node) (memory : Memory) (status : NodeStatus) (lastError : Option String) :
    n.Becomes { n with memory, status, lastError } :=
  ⟨rfl, rfl, rfl, rfl, fun slot => by cases slot <;> rfl⟩

theorem Writes.becomes {slots : List Slot} {s s' : Supply} (h : Writes slots n s n' s') :
    n.Becomes n' ∧ n'.memory = n.memory := by
  induction h with
  | done n => exact ⟨.refl n, rfl⟩
  | @write slots slot n m p p' v w s s₁ s' hp hw _ ih =>
    have hface : p'.face = p.face := by rw [Port.face, Port.write_id hw, Port.write_dataType hw, Port.face]
    exact ⟨(becomes_setPort hp hface).trans ih.1, ih.2.trans (setPort_memory ..)⟩

theorem becomes_complete (n : Node) (result : Except NodeError Output) (s : Supply) :
    n.Becomes (n.complete result s).2.1 ∧ (n.complete result s).2.1.memory = n.memory := by
  obtain ⟨slots, m, -, hwrites, ⟨status, lastError, heq⟩, -⟩ := n.writes_complete result s
  rw [heq]
  exact ⟨hwrites.becomes.1.trans (m.becomes_status m.memory status lastError), hwrites.becomes.2⟩

/-! ### What waits at a node -/

/-- The value in a place that waits to be consumed. -/
def held? (n : Node) (slot : Slot) : Option Value :=
  (n.portAt? slot).bind Port.held?

/-- The value in a place that waits to be moved. -/
def fresh? (n : Node) (slot : Slot) : Option Value :=
  (n.portAt? slot).bind Port.fresh?

/-- A node with one input is activated with what waits there. -/
theorem inputs_prepare {name : String} {p : Port} (hn : n.inputs = [(name, p)]) :
    n.prepare.1.inputs = [(name, (n.held? (.input name)).getD .null)] := by
  have hat : n.held? (.input name) = p.held? := by simp [held?, portAt?, hn]
  rw [hat, ← p.data_eq]
  simp [prepare, hn, Port.read, mapValues]

/-! ### Outputs that are accepted -/

/-- A node has a port for each value of an output, which takes it as it is. -/
structure Accepts (n : Node) (o : Output) : Prop where
  takes : ∀ e ∈ o.values, ∃ p, n.portAt? e.1 = some p ∧ e.2.convert p.dataType = .ok e.2
  outputs : (keys o.outputs).Nodup
  controls : (keys o.controls).Nodup

section Accepts

variable {values : NamedValues}

/-- Values of distinct names that are taken as they are, are all written, and ports of other names stay. -/
theorem writeNamed_accepted (group : Keyed Port) (s : Supply)
    (htakes : ∀ e ∈ values, ∃ p, Keyed.find? e.1 group = some p ∧ e.2.convert p.dataType = .ok e.2)
    (hn : (keys values).Nodup) :
    (writeNamed values group s).1 = none ∧
      (∀ e ∈ values, ∃ p p', Keyed.find? e.1 group = some p ∧ Keyed.find? e.1 (writeNamed values group s).2.1 = some p' ∧
        p.Stores e.2 p') ∧
      ∀ name, name ∉ keys values → Keyed.find? name (writeNamed values group s).2.1 = Keyed.find? name group := by
  induction values generalizing group s with
  | nil => exact ⟨rfl, fun _ he => absurd he List.not_mem_nil, fun _ _ => rfl⟩
  | cons entry rest ih =>
    obtain ⟨name, v⟩ := entry
    obtain ⟨⟨p, hp, hv⟩, htakes⟩ := List.forall_mem_cons.1 htakes
    obtain ⟨hnew, hn⟩ := List.nodup_cons.1 hn
    obtain ⟨p', s', hw, hstores⟩ := Port.stores_write hv s
    dsimp only at hp
    have hother : ∀ other, name ≠ other → Keyed.find? other (Keyed.insert name p' group) = Keyed.find? other group :=
      fun other hne => find?_insert_of_ne hne p' group
    have hapart : ∀ e ∈ rest, name ≠ e.1 := fun e he heq => hnew (List.mem_map.2 ⟨e, he, heq.symm⟩)
    have htakes' : ∀ e ∈ rest, ∃ q, Keyed.find? e.1 (Keyed.insert name p' group) = some q ∧
        e.2.convert q.dataType = .ok e.2 := fun e he => by
      rw [hother e.1 (hapart e he)]
      exact htakes e he
    obtain ⟨hnone, hwritten, hkept⟩ := ih (Keyed.insert name p' group) s' htakes' hn
    have hstep : writeNamed ((name, v) :: rest) group s = writeNamed rest (Keyed.insert name p' group) s' := by
      simp only [writeNamed, hp, hw]
    rw [hstep]
    refine ⟨hnone, List.forall_mem_cons.2 ⟨⟨p, p', hp, ?_, hstores⟩, fun e he => ?_⟩, fun other hother' => ?_⟩
    · rw [hkept name hnew, find?_insert_self]
    · obtain ⟨q, q', hq, hq', hstores'⟩ := hwritten e he
      rw [hother e.1 (hapart e he)] at hq
      exact ⟨q, q', hq, hq', hstores'⟩
    · rw [keys, List.map_cons, List.mem_cons, not_or] at hother'
      rw [hkept other hother'.2, hother other (Ne.symm hother'.1)]

/-- **An output that a node accepts is written**, each value to its port, and other places of the output side than those of
the output stay. -/
theorem Accepts.complete (h : n.Accepts o) (s : Supply) :
    (n.complete (.ok o) s).1 = .ok () ∧
      (∀ e ∈ o.values, ∃ p p', n.portAt? e.1 = some p ∧ (n.complete (.ok o) s).2.1.portAt? e.1 = some p' ∧ p.Stores e.2 p') ∧
      ∀ slot, slot ∉ o.slots → (n.complete (.ok o) s).2.1.portAt? slot = n.portAt? slot := by
  have htakes := List.forall_mem_append.1 h.takes
  have hout := writeNamed_accepted n.outputs s (fun e he => htakes.1 _ (List.mem_map_of_mem he)) h.outputs
  rcases hr : writeNamed o.outputs n.outputs s with ⟨e₁, outputs, s₁⟩
  rw [hr] at hout
  obtain ⟨hnone₁, hwritten₁, hkept₁⟩ := hout
  dsimp only at hnone₁ hwritten₁ hkept₁
  subst hnone₁
  have hcontrol := writeNamed_accepted n.controlOutputs s₁
    (fun e he => htakes.2 _ (List.mem_map_of_mem he)) h.controls
  rcases hr' : writeNamed o.controls n.controlOutputs s₁ with ⟨e₂, controlOutputs, s₂⟩
  rw [hr'] at hcontrol
  obtain ⟨hnone₂, hwritten₂, hkept₂⟩ := hcontrol
  dsimp only at hnone₂ hwritten₂ hkept₂
  subst hnone₂
  have hexec : n.execOut.write .null s₂ =
      .ok (.null, { n.execOut with data := .null, version := n.execOut.version + 1, elements := [] }, s₂) := rfl
  have hcomplete : n.complete (.ok o) s = (.ok (), { n with
      outputs, controlOutputs, status := .success
      execOut := { n.execOut with data := .null, version := n.execOut.version + 1, elements := [] } }, s₂) := by
    simp only [Node.complete, writeOutput, hr, hr', hexec]
  rw [hcomplete]
  refine ⟨rfl, List.forall_mem_append.2 ⟨?_, ?_⟩, fun slot hslot => ?_⟩
  · exact List.forall_mem_map.2 hwritten₁
  · exact List.forall_mem_map.2 hwritten₂
  · simp only [Output.slots, List.mem_append, List.mem_map, List.mem_singleton, not_or] at hslot
    obtain ⟨⟨houtputs, hcontrols⟩, hexecOut⟩ := hslot
    cases slot with
    | output name => exact hkept₁ name fun hmem => houtputs ⟨name, hmem, rfl⟩
    | controlOutput name => exact hkept₂ name fun hmem => hcontrols ⟨name, hmem, rfl⟩
    | execOut => exact absurd rfl hexecOut
    | execIn | input | controlInput => rfl

theorem Accepts.becomes (h : n.Accepts o) (hbecomes : n.Becomes n') : n'.Accepts o := by
  refine ⟨fun e he => ?_, h.outputs, h.controls⟩
  obtain ⟨p, hp, hv⟩ := h.takes e he
  obtain ⟨p', hp', -, htype⟩ := hbecomes.portAt? hp
  exact ⟨p', hp', htype ▸ hv⟩

end Accepts

/-! ### Whole activations -/

/-- What a whole activation comes to that ends with an output. Its inputs are empty then, each value of the output waits in
its place to be moved, and the other outputs stay. -/
structure Turned (memory : Memory) (o : Output) (n n' : Node) : Prop where
  becomes : n.Becomes n'
  memory : n'.memory = memory
  cleared : ∀ slot, slot.isTrigger = true → n'.held? slot = none
  written : ∀ e ∈ o.values, n'.fresh? e.1 = some e.2
  kept : ∀ slot, slot.isOutput = true → slot ∉ o.slots → n'.fresh? slot = n.fresh? slot

/-- **A node whose activation ends with an output that it accepts is turned.** -/
theorem turned (h : n.Accepts o) (hl : n.Legal) (memory : Memory) (s : Supply) :
    ((({ n.prepare.2 with memory } : Node).complete (.ok o) s)).1 = .ok () ∧
      n.Turned memory o (({ n.prepare.2 with memory } : Node).complete (.ok o) s).2.1.clearInputs := by
  set m : Node := { n.prepare.2 with memory } with hm
  have hbegun : n.Becomes m := n.becomes_prepare.trans (n.prepare.2.becomes_status memory _ _)
  have hside : ∀ slot, slot.isOutput = true → m.portAt? slot = n.portAt? slot := by
    intro slot hs
    cases slot <;> first | rfl | cases hs
  obtain ⟨hanswer, hwritten, hkept⟩ := (h.becomes hbegun).complete s
  obtain ⟨hended, hmemory⟩ := m.becomes_complete (.ok o) s
  generalize m.complete (.ok o) s = r at hanswer hwritten hkept hended hmemory
  have hlast : ∀ slot, slot.isOutput = true → r.2.1.clearInputs.portAt? slot = r.2.1.portAt? slot := by
    intro slot hs
    rw [portAt?_clearInputs, if_neg]
    intro htrigger
    rw [Slot.isOutput_of_isTrigger htrigger] at hs
    cases hs
  refine ⟨hanswer, (hbegun.trans hended).trans r.2.1.becomes_clearInputs, hmemory, fun slot hs => ?_, fun e he => ?_,
    fun slot hs hslot => ?_⟩
  · rw [held?, portAt?_clearInputs, if_pos hs]
    cases r.2.1.portAt? slot with
    | none => rfl
    | some p => exact p.held?_clear
  · obtain ⟨p, p', hp, hp', hstores⟩ := hwritten e he
    have hs : e.1.isOutput = true := by
      rcases List.mem_append.1 he with hmem | hmem <;> obtain ⟨_, -, rfl⟩ := List.mem_map.1 hmem <;> rfl
    rw [hside e.1 hs] at hp
    rw [fresh?, hlast e.1 hs, hp']
    exact hstores.fresh? (hl e.1 p hp).self.counted
  · rw [fresh?, hlast slot hs, hkept slot hslot, hside slot hs, fresh?]

end Node

end Dataflow
