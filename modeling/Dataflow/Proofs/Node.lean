import Dataflow.Node.Activation
import Dataflow.Proofs.Port.Legal
import Dataflow.Proofs.Port.Paths

/-!
# The ports of a node

* `Node.entries` lists the ports of a node with their places; `Node.Ordered` says that each group has each
  name once, so that every place occurs once;
* `Node.portAt?_setPort`, `Node.portIds_setPort`: what changes when a port takes the place of another;
* `Node.write_eq_ok`: a write changes the port in one place;
* `Node.portAt?_prepare`, `Node.portAt?_clearInputs`: what an activation does to the trigger side;
* `Node.writes_complete`: what it does to the output side is a sequence of writes;
* `Node.Evolves` says what all of these changes have in common.
-/

namespace Dataflow

open Keyed

/-- The places of the ports that gate readiness. -/
def Slot.isTrigger : Slot → Bool
  | .execIn | .input _ => true
  | _ => false

/-- The places on the output side. -/
def Slot.isOutput : Slot → Bool
  | .execOut | .output _ | .controlOutput _ => true
  | _ => false

/-- The side of a node that a place is on. -/
def Slot.side (slot : Slot) : Direction :=
  if slot.isOutput then .output else .input

theorem Slot.side_eq_output {slot : Slot} : slot.side = .output ↔ slot.isOutput = true := by
  unfold Slot.side
  split_ifs with h
  · exact ⟨fun _ => h, fun _ => rfl⟩
  · exact ⟨fun heq => (by cases heq), fun hout => absurd hout h⟩

namespace Node

/-- Each group of ports has each name once. -/
structure Ordered (n : Node) : Prop where
  inputs : Ascending n.inputs
  controlInputs : Ascending n.controlInputs
  outputs : Ascending n.outputs
  controlOutputs : Ascending n.controlOutputs

/-- The ports of a group with their places. -/
def placed (place : String → Slot) (group : Keyed Port) : Table Slot Port :=
  group.map fun e => (place e.1, e.2)

/-- The top-level ports with their places. -/
def entries (n : Node) : Table Slot Port :=
  (.execIn, n.execIn) :: placed .input n.inputs ++ placed .controlInput n.controlInputs ++
    (.execOut, n.execOut) :: placed .output n.outputs ++ placed .controlOutput n.controlOutputs

theorem ports_eq (n : Node) : n.ports = n.entries.map Prod.snd := by
  simp [ports, entries, placed, values, Function.comp_def]

theorem portIds_eq (n : Node) : n.portIds = n.entries.flatMap fun e => e.2.ids := by
  rw [portIds, ports_eq, List.flatMap_map]

theorem portAt?_eq (n : Node) (slot : Slot) : n.portAt? slot = Table.find? slot n.entries := by
  have hi : Function.Injective Slot.input := fun _ _ h => by cases h; rfl
  have ho : Function.Injective Slot.output := fun _ _ h => by cases h; rfl
  have hci : Function.Injective Slot.controlInput := fun _ _ h => by cases h; rfl
  have hco : Function.Injective Slot.controlOutput := fun _ _ h => by cases h; rfl
  cases slot <;>
    simp [portAt?, entries, placed, Table.find?_append, Table.find?_map_keyed_of_ne, Table.find?_map_keyed hi,
      Table.find?_map_keyed ho, Table.find?_map_keyed hci, Table.find?_map_keyed hco]

theorem Ordered.proper {n : Node} (h : n.Ordered) : Table.Proper n.entries := by
  have hgroup : ∀ {f : String → Slot} {es : Keyed Port}, Function.Injective f → Ascending es →
      ((placed f es).map Prod.fst).Nodup := by
    intro f es hf he
    have := he.nodup.map hf
    simpa [placed, keys, Function.comp_def] using this
  have hi := hgroup (fun _ _ h => by cases h; rfl : Function.Injective Slot.input) h.inputs
  have hci := hgroup (fun _ _ h => by cases h; rfl : Function.Injective Slot.controlInput) h.controlInputs
  have ho := hgroup (fun _ _ h => by cases h; rfl : Function.Injective Slot.output) h.outputs
  have hco := hgroup (fun _ _ h => by cases h; rfl : Function.Injective Slot.controlOutput) h.controlOutputs
  unfold Table.Proper entries
  simp only [List.map_append, List.map_cons, List.nodup_append', List.nodup_cons, List.disjoint_left]
  refine ⟨⟨⟨⟨by simp [placed], hi⟩, hci, ?_⟩, ⟨by simp [placed], ho⟩, ?_⟩, hco, ?_⟩ <;>
    simp only [placed, List.map_map] <;> aesop

theorem mem_entries {n : Node} (h : n.Ordered) {slot : Slot} {p : Port} :
    (slot, p) ∈ n.entries ↔ n.portAt? slot = some p := by
  rw [portAt?_eq]
  exact ⟨h.proper.find?_of_mem, Table.mem_of_find?⟩

/-! ### Exchanging the port in a place -/

section SetPort

variable {n : Node} {slot slot' : Slot} {p q top : Port}

theorem portAt?_setPort (n : Node) (slot slot' : Slot) (p : Port) :
    (n.setPort slot p).portAt? slot' = if slot = slot' then some p else n.portAt? slot' := by
  have hgroup : ∀ (name name' : String) (group : Keyed Port),
      Keyed.find? name' (Keyed.insert name p group) =
        if name = name' then some p else Keyed.find? name' group := by
    intro name name' group
    split_ifs with h
    · subst h; simp
    · exact find?_insert_of_ne h p group
  cases slot <;> cases slot' <;> simp [setPort, portAt?, hgroup]

theorem Ordered.setPort (h : n.Ordered) : (n.setPort slot p).Ordered := by
  obtain ⟨hi, hci, ho, hco⟩ := h
  cases slot with
  | execIn | execOut => exact ⟨hi, hci, ho, hco⟩
  | input _ => exact ⟨hi.insert, hci, ho, hco⟩
  | output _ => exact ⟨hi, hci, ho.insert, hco⟩
  | controlInput _ => exact ⟨hi, hci.insert, ho, hco⟩
  | controlOutput _ => exact ⟨hi, hci, ho, hco.insert⟩

@[simp] theorem setPort_id (n : Node) (slot : Slot) (p : Port) : (n.setPort slot p).id = n.id := by
  cases slot <;> rfl

@[simp] theorem setPort_label (n : Node) (slot : Slot) (p : Port) : (n.setPort slot p).label = n.label := by
  cases slot <;> rfl

@[simp] theorem setPort_config (n : Node) (slot : Slot) (p : Port) : (n.setPort slot p).config = n.config := by
  cases slot <;> rfl

@[simp] theorem setPort_behavior (n : Node) (slot : Slot) (p : Port) :
    (n.setPort slot p).behavior = n.behavior := by
  cases slot <;> rfl

@[simp] theorem setPort_memory (n : Node) (slot : Slot) (p : Port) : (n.setPort slot p).memory = n.memory := by
  cases slot <;> rfl

theorem triggers_setPort (hs : slot.isOutput = true) : (n.setPort slot p).triggers = n.triggers := by
  cases slot <;> first | rfl | cases hs

/-- A port takes a place, and the rest stays. -/
theorem entries_setPort (hn : n.Ordered) (slot : Slot) :
    ∃ before after, n.entries = before ++ ((n.portAt? slot).map (slot, ·)).toList ++ after ∧
      ∀ p, (n.setPort slot p).entries = before ++ (slot, p) :: after := by
  have hgroup : ∀ (f : String → Slot) (name : String) {group : Keyed Port}, Ascending group →
      ∃ before after, placed f group = before ++ ((Keyed.find? name group).map (f name, ·)).toList ++ after ∧
          ∀ p, placed f (Keyed.insert name p group) = before ++ (f name, p) :: after := by
    intro f name group ha
    obtain ⟨before, after, hsplit, hins⟩ := insert_split ha name
    refine ⟨placed f before, placed f after, ?_, fun p => ?_⟩
    · conv_lhs => rw [hsplit]
      cases Keyed.find? name group <;> simp [placed]
    · rw [hins, placed, List.map_append, List.map_cons]; rfl
  unfold entries
  cases slot with
  | execIn => exact ⟨[], _, rfl, fun _ => rfl⟩
  | execOut =>
    exact ⟨(.execIn, n.execIn) :: placed .input n.inputs ++ placed .controlInput n.controlInputs,
      placed .output n.outputs ++ placed .controlOutput n.controlOutputs, by simp [portAt?],
      fun p => by simp [setPort]⟩
  | input name =>
    obtain ⟨before, after, hsplit, hins⟩ := hgroup .input name hn.inputs
    refine ⟨(.execIn, n.execIn) :: before, after ++ placed .controlInput n.controlInputs ++
      (.execOut, n.execOut) :: placed .output n.outputs ++ placed .controlOutput n.controlOutputs, ?_, fun p => ?_⟩
    · rw [hsplit]; simp [portAt?]
    · simp [setPort, hins]
  | controlInput name =>
    obtain ⟨before, after, hsplit, hins⟩ := hgroup .controlInput name hn.controlInputs
    refine ⟨(.execIn, n.execIn) :: placed .input n.inputs ++ before, after ++
      (.execOut, n.execOut) :: placed .output n.outputs ++ placed .controlOutput n.controlOutputs, ?_, fun p => ?_⟩
    · rw [hsplit]; simp [portAt?]
    · simp [setPort, hins]
  | output name =>
    obtain ⟨before, after, hsplit, hins⟩ := hgroup .output name hn.outputs
    refine ⟨(.execIn, n.execIn) :: placed .input n.inputs ++ placed .controlInput n.controlInputs ++
      (.execOut, n.execOut) :: before, after ++ placed .controlOutput n.controlOutputs, ?_, fun p => ?_⟩
    · rw [hsplit]; simp [portAt?]
    · simp [setPort, hins]
  | controlOutput name =>
    obtain ⟨before, after, hsplit, hins⟩ := hgroup .controlOutput name hn.controlOutputs
    refine ⟨(.execIn, n.execIn) :: placed .input n.inputs ++ placed .controlInput n.controlInputs ++
      (.execOut, n.execOut) :: placed .output n.outputs ++ before, after, ?_, fun p => ?_⟩
    · rw [hsplit]; simp [portAt?]
    · simp [setPort, hins]

theorem portIds_setPort (hn : n.Ordered) (slot : Slot) :
    ∃ before after, n.portIds = before ++ (n.portAt? slot).elim [] Port.ids ++ after ∧
      ∀ p, (n.setPort slot p).portIds = before ++ p.ids ++ after := by
  obtain ⟨before, after, hsplit, hset⟩ := entries_setPort hn slot
  refine ⟨before.flatMap fun e => e.2.ids, after.flatMap fun e => e.2.ids, ?_, fun p => ?_⟩
  · rw [portIds_eq, hsplit, List.flatMap_append, List.flatMap_append]
    cases n.portAt? slot <;> simp
  · rw [portIds_eq, hset, List.flatMap_append, List.flatMap_cons, List.append_assoc]

theorem renews_setPort {s s' : Supply} (hn : n.Ordered)
    (hp : s.Renews ((n.portAt? slot).elim [] Port.ids) s' p.ids) :
    s.Renews n.portIds s' (n.setPort slot p).portIds := by
  obtain ⟨before, after, hsplit, hset⟩ := portIds_setPort hn slot
  rw [hsplit, hset]
  exact hp.append before after

end SetPort

/-! ### Looking up -/

section LookUp

variable {n : Node} {id : PortId} {slot slot' : Slot} {p p' : Port}

theorem mem_portIds (hn : n.Ordered) :
    id ∈ n.portIds ↔ ∃ slot top, n.portAt? slot = some top ∧ id ∈ top.ids := by
  rw [portIds_eq, List.mem_flatMap]
  constructor
  · rintro ⟨⟨slot, top⟩, he, hid⟩
    exact ⟨slot, top, (mem_entries hn).1 he, hid⟩
  · rintro ⟨slot, top, he, hid⟩
    exact ⟨(slot, top), (mem_entries hn).2 he, hid⟩

theorem mem_values {group : Keyed Port} (ha : Ascending group) :
    p ∈ values group ↔ ∃ name, Keyed.find? name group = some p := by
  rw [values, List.mem_map]
  constructor
  · rintro ⟨⟨name, q⟩, he, rfl⟩
    exact ⟨name, find?_of_mem ha.nodup he⟩
  · rintro ⟨name, hf⟩
    exact ⟨_, mem_of_find? hf, rfl⟩

theorem mem_triggers (hn : n.Ordered) : p ∈ n.triggers ↔ ∃ slot, slot.isTrigger = true ∧ n.portAt? slot = some p := by
  rw [triggers, List.mem_cons, mem_values hn.inputs]
  constructor
  · rintro (rfl | ⟨name, h⟩)
    · exact ⟨.execIn, rfl, rfl⟩
    · exact ⟨.input name, rfl, h⟩
  · rintro ⟨slot, hs, h⟩
    cases slot <;> first | exact Or.inl (Option.some.inj h).symm | exact Or.inr ⟨_, h⟩ | cases hs

theorem mem_outputSide (hn : n.Ordered) :
    p ∈ n.outputSide ↔ ∃ slot, slot.isOutput = true ∧ n.portAt? slot = some p := by
  rw [outputSide, List.mem_append, List.mem_cons, mem_values hn.outputs, mem_values hn.controlOutputs]
  constructor
  · rintro ((rfl | ⟨name, h⟩) | ⟨name, h⟩)
    · exact ⟨.execOut, rfl, rfl⟩
    · exact ⟨.output name, rfl, h⟩
    · exact ⟨.controlOutput name, rfl, h⟩
  · rintro ⟨slot, hs, h⟩
    cases slot with
    | execOut => exact Or.inl (Or.inl (Option.some.inj h).symm)
    | output name => exact Or.inl (Or.inr ⟨name, h⟩)
    | controlOutput name => exact Or.inr ⟨name, h⟩
    | _ => cases hs

theorem mem_triggerIds (hn : n.Ordered) :
    id ∈ n.triggerIds ↔ ∃ slot top, slot.isTrigger = true ∧ n.portAt? slot = some top ∧ id ∈ top.ids := by
  rw [triggerIds, List.mem_flatMap]
  constructor
  · rintro ⟨top, ht, hid⟩
    obtain ⟨slot, hs, h⟩ := (mem_triggers hn).1 ht
    exact ⟨slot, top, hs, h, hid⟩
  · rintro ⟨slot, top, hs, h, hid⟩
    exact ⟨top, (mem_triggers hn).2 ⟨slot, hs, h⟩, hid⟩

theorem mem_outputIds (hn : n.Ordered) :
    id ∈ n.outputIds ↔ ∃ slot top, slot.isOutput = true ∧ n.portAt? slot = some top ∧ id ∈ top.ids := by
  rw [outputIds, List.mem_flatMap]
  constructor
  · rintro ⟨top, ht, hid⟩
    obtain ⟨slot, hs, h⟩ := (mem_outputSide hn).1 ht
    exact ⟨slot, top, hs, h, hid⟩
  · rintro ⟨slot, top, hs, h, hid⟩
    exact ⟨top, (mem_outputSide hn).2 ⟨slot, hs, h⟩, hid⟩

theorem portIds_of_outputIds (hn : n.Ordered) (h : id ∈ n.outputIds) : id ∈ n.portIds := by
  obtain ⟨slot, top, -, ht, hid⟩ := (mem_outputIds hn).1 h
  exact (mem_portIds hn).2 ⟨slot, top, ht, hid⟩

/-- In a node with distinct identifiers, an identifier is below one place only. -/
theorem slot_unique (hn : n.Ordered) (hd : n.portIds.Nodup) (h : n.portAt? slot = some p)
    (h' : n.portAt? slot' = some p') (hi : id ∈ p.ids) (hi' : id ∈ p'.ids) : slot = slot' := by
  by_contra hne
  rw [portIds_eq] at hd
  have hsymm : Std.Symm (Function.onFun List.Disjoint fun e : Slot × Port => e.2.ids) :=
    ⟨fun _ _ hdis => hdis.symm⟩
  have hdis := (List.nodup_flatMap.1 hd).2.forall ((mem_entries hn).2 h) ((mem_entries hn).2 h')
    fun e => hne (congrArg Prod.fst e)
  exact hdis hi hi'

/-- The place that a port is below tells whether it is on the output side. -/
theorem mem_outputIds_iff_isOutput (hn : n.Ordered) (hd : n.portIds.Nodup) (h : n.portAt? slot = some p)
    (hi : id ∈ p.ids) : id ∈ n.outputIds ↔ slot.isOutput = true := by
  rw [mem_outputIds hn]
  constructor
  · rintro ⟨slot', p', hs, h', hi'⟩
    obtain rfl := slot_unique hn hd h h' hi hi'
    exact hs
  · exact fun hs => ⟨slot, p, hs, h, hi⟩

theorem nodup_ids (hn : n.Ordered) (hd : n.portIds.Nodup) (h : n.portAt? slot = some p) : p.ids.Nodup := by
  rw [portIds_eq] at hd
  exact (List.nodup_flatMap.1 hd).1 _ ((mem_entries hn).2 h)

theorem port?_eq_some (hn : n.Ordered) (h : n.port? id = some p) :
    ∃ slot top, n.portAt? slot = some top ∧ Port.find? id top = some p := by
  obtain ⟨top, htop, hf⟩ := List.exists_of_findSome?_eq_some h
  rw [ports_eq, List.mem_map] at htop
  obtain ⟨⟨slot, q⟩, he, rfl⟩ := htop
  exact ⟨slot, q, (mem_entries hn).1 he, hf⟩

theorem port?_isSome : (n.port? id).isSome ↔ id ∈ n.portIds := by
  rw [port?, List.findSome?_isSome_iff, portIds, List.mem_flatMap]
  simp only [Port.find?_isSome]

end LookUp

/-! ### Writing to a port and exchanging one -/

theorem write_eq_ok {n n' : Node} {id : PortId} {v w : Value} {s s' : Supply}
    (h : n.write id v s = some (.ok (w, n', s'))) :
    ∃ slot top top', n.portAt? slot = some top ∧ top.writeAt id v s = some (.ok (w, top', s')) ∧
      n' = n.setPort slot top' := by
  simp only [write, Option.bind_eq_bind, Option.bind_eq_some_iff] at h
  obtain ⟨slot, -, top, htop, result, hresult, h⟩ := h
  obtain ⟨⟨w₁, top', s₁⟩, hr, heq⟩ := Except.map_eq_ok.1 (Option.some.inj h)
  cases heq
  exact ⟨slot, top, top', htop, hr ▸ hresult, rfl⟩

theorem replacePort?_eq_some {n n' : Node} {id : PortId} {new : Port} (h : n.replacePort? id new = some n') :
    ∃ slot top top', n.portAt? slot = some top ∧ Port.replace? id new top = some top' ∧
      n' = n.setPort slot top' := by
  simp only [replacePort?, Option.bind_eq_bind, Option.bind_eq_some_iff] at h
  obtain ⟨slot, -, top, htop, top', htop', h⟩ := h
  exact ⟨slot, top, top', htop, htop', (Option.some.inj h).symm⟩

/-- In a node with distinct identifiers, the port that is exchanged is the one that a look-up finds. -/
theorem replacePort?_edit {n n' : Node} {id : PortId} {c new : Port} (hn : n.Ordered) (hd : n.portIds.Nodup)
    (hc : n.port? id = some c) (h : n.replacePort? id new = some n') :
    ∃ slot top top', n.portAt? slot = some top ∧ n' = n.setPort slot top' ∧
      Port.Edit (fun r => r) id (fun x x' => x = c ∧ x' = new) top top' := by
  obtain ⟨slot, top, top', htop, hrep, rfl⟩ := replacePort?_eq_some h
  obtain ⟨slot₁, top₁, htop₁, hfind⟩ := port?_eq_some hn hc
  obtain ⟨hmem, hcid⟩ := Port.find?_some_mem hfind
  have hin₁ : id ∈ top₁.ids := Port.mem_ids_iff.2 ⟨c, hmem, hcid⟩
  have hedit := (Port.edit_of_replace? hrep).and_mem
  obtain rfl := slot_unique hn hd htop₁ htop hin₁ hedit.mem_ids
  obtain rfl : top₁ = top := Option.some.inj (htop₁.symm.trans htop)
  refine ⟨slot₁, top₁, top', htop, rfl, hedit.imp fun x x' ⟨hx', hx, hxid⟩ => ⟨?_, hx'⟩⟩
  have hfound := (Port.find?_eq_some_iff (nodup_ids hn hd htop)).2 ⟨hx, hxid⟩
  exact Option.some.inj (hfound.symm.trans hfind)

/-! ### The trigger side of an activation -/

section Triggers

variable (n : Node) (slot : Slot)

theorem portAt?_prepare :
    n.prepare.2.portAt? slot =
      if slot.isTrigger = true then (n.portAt? slot).map fun p => p.read.2 else n.portAt? slot := by
  cases slot <;> simp [prepare, portAt?, Slot.isTrigger]

theorem portAt?_clearInputs :
    n.clearInputs.portAt? slot = if slot.isTrigger = true then (n.portAt? slot).map Port.clear else n.portAt? slot := by
  cases slot <;> simp [clearInputs, portAt?, Slot.isTrigger]

@[simp] theorem find?_prepare_inputs (name : String) :
    Keyed.find? name n.prepare.1.inputs = (Keyed.find? name n.inputs).map Port.data := by
  simp [prepare, Port.read]

theorem portIds_prepare : n.prepare.2.portIds = n.portIds := by
  simp [portIds, ports, prepare, List.flatMap_map]

theorem portIds_clearInputs : n.clearInputs.portIds = n.portIds := by
  simp [portIds, ports, clearInputs, List.flatMap_map]

variable {n}

theorem Ordered.prepare (hn : n.Ordered) : n.prepare.2.Ordered := by
  obtain ⟨hi, hci, ho, hco⟩ := hn
  exact ⟨(ascending_mapValues (f := fun p => (Port.read p).2)).2 hi, hci, ho, hco⟩

theorem Ordered.clearInputs (hn : n.Ordered) : n.clearInputs.Ordered := by
  obtain ⟨hi, hci, ho, hco⟩ := hn
  exact ⟨ascending_mapValues.2 hi, hci, ho, hco⟩

end Triggers

end Node

/-! ### The output side of an activation -/

/-- The places that an output writes to, in order. -/
def Output.slots (o : Output) : List Slot :=
  (keys o.outputs).map .output ++ (keys o.controls).map .controlOutput ++ [.execOut]

/-- The places that the result of an activation writes to. -/
def Node.slotsOf : Except NodeError Output → List Slot
  | .ok o => o.slots
  | .error _ => []

theorem Node.isOutput_of_mem_slotsOf {result : Except NodeError Output} {slot : Slot} (h : slot ∈ slotsOf result) :
    slot.isOutput = true := by
  cases result with
  | error e => exact absurd h List.not_mem_nil
  | ok o =>
    simp only [slotsOf, Output.slots, List.mem_append, List.mem_map, List.mem_singleton] at h
    rcases h with (⟨_, -, rfl⟩ | ⟨_, -, rfl⟩) | rfl <;> rfl

namespace Node

/-- Writes to top-level ports, one place after the other. -/
inductive Writes : List Slot → Node → Supply → Node → Supply → Prop
  | done (n : Node) (s : Supply) : Writes [] n s n s
  | write {slots : List Slot} {slot : Slot} {n m : Node} {p p' : Port} {v w : Value} {s s₁ s' : Supply}
      (hp : n.portAt? slot = some p) (hw : p.write v s = .ok (w, p', s₁))
      (hrest : Writes slots (n.setPort slot p') s₁ m s') : Writes (slot :: slots) n s m s'

theorem Writes.append {slots slots' : List Slot} {n m k : Node} {s s₁ s' : Supply} (h : Writes slots n s m s₁)
    (h' : Writes slots' m s₁ k s') : Writes (slots ++ slots') n s k s' := by
  induction h with
  | done => exact h'
  | write hp hw _ ih => exact .write hp hw (ih h')

/-- The named writes of one group, which `place` puts into the node by `put`. -/
theorem writes_writeNamed (place : String → Slot) (group : Node → Keyed Port) (put : Keyed Port → Node → Node)
    (hat : ∀ n name, n.portAt? (place name) = Keyed.find? name (group n))
    (hset : ∀ n name p, n.setPort (place name) p = put (Keyed.insert name p (group n)) n)
    (hget : ∀ n es, group (put es n) = es) (hput : ∀ n es es', put es' (put es n) = put es' n)
    (hself : ∀ n, put (group n) n = n) (values : NamedValues) (n : Node) (s : Supply) :
    ∃ names, names ⊆ keys values ∧
      Writes (names.map place) n s (put (writeNamed values (group n) s).2.1 n) (writeNamed values (group n) s).2.2 ∧
      ((writeNamed values (group n) s).1 = none → names = keys values) := by
  induction values generalizing n s with
  | nil =>
    refine ⟨[], by simp, ?_, fun _ => rfl⟩
    rw [writeNamed, hself]
    exact .done n s
  | cons entry rest ih =>
    obtain ⟨name, v⟩ := entry
    cases hf : Keyed.find? name (group n) with
    | none =>
      refine ⟨[], by simp, ?_, ?_⟩
      · rw [writeNamed, hf, hself]
        exact .done n s
      · simp [writeNamed, hf]
    | some p =>
      cases hw : p.write v s with
      | error e =>
        refine ⟨[], by simp, ?_, ?_⟩
        · simp only [writeNamed, hf, hw, hself]
          exact .done n s
        · simp [writeNamed, hf, hw]
      | ok r =>
        obtain ⟨w, p', s₁⟩ := r
        obtain ⟨names, hsub, hwrites, hall⟩ := ih (n.setPort (place name) p') s₁
        rw [hset, hget, hput] at hwrites
        rw [hset, hget] at hall
        refine ⟨name :: names, List.cons_subset_cons _ hsub, ?_, fun h => ?_⟩
        · simp only [writeNamed, hf, hw]
          exact .write ((hat n name).trans hf) hw (hset n name p' ▸ hwrites)
        · simp only [writeNamed, hf, hw] at h
          rw [hall h]
          rfl

/-- An output is written place after place; if all of it is accepted, to all of its places. -/
theorem writes_writeOutput (n : Node) (o : Output) (s : Supply) :
    ∃ slots, slots ⊆ o.slots ∧ Writes slots n s (n.writeOutput o s).2.1 (n.writeOutput o s).2.2 ∧
      ((n.writeOutput o s).1 = none → slots = o.slots) := by
  obtain ⟨names, hsub, hwrites, hall⟩ := writes_writeNamed .output Node.outputs
    (fun outputs n => { n with outputs }) (fun _ _ => rfl) (fun _ _ _ => rfl) (fun _ _ => rfl)
    (fun _ _ _ => rfl) (fun _ => rfl) o.outputs n s
  rcases hr : writeNamed o.outputs n.outputs s with ⟨e, outputs, s₁⟩
  rw [hr] at hwrites hall
  dsimp only at hwrites hall
  have hsub₁ : names.map Slot.output ⊆ o.slots := fun slot h => by
    obtain ⟨name, hname, rfl⟩ := List.mem_map.1 h
    exact List.mem_append_left _ (List.mem_append_left _ (List.mem_map_of_mem (hsub hname)))
  cases e with
  | some e =>
    refine ⟨names.map .output, hsub₁, ?_, ?_⟩
    · simp only [writeOutput, hr]; exact hwrites
    · simp [writeOutput, hr]
  | none =>
    obtain ⟨names', hsub', hwrites', hall'⟩ := writes_writeNamed .controlOutput
      Node.controlOutputs (fun controlOutputs n => { n with controlOutputs })
      (fun _ _ => rfl) (fun _ _ _ => rfl) (fun _ _ => rfl) (fun _ _ _ => rfl) (fun _ => rfl) o.controls
      { n with outputs } s₁
    rcases hr' : writeNamed o.controls n.controlOutputs s₁ with ⟨e', controlOutputs, s₂⟩
    dsimp only at hwrites' hall'
    rw [hr'] at hwrites' hall'
    dsimp only at hwrites' hall'
    have hsub₂ : names'.map Slot.controlOutput ⊆ o.slots := fun slot h => by
      obtain ⟨name, hname, rfl⟩ := List.mem_map.1 h
      exact List.mem_append_left _ (List.mem_append_right _ (List.mem_map_of_mem (hsub' hname)))
    have hboth := hwrites.append hwrites'
    cases e' with
    | some e' =>
      refine ⟨_, List.append_subset.2 ⟨hsub₁, hsub₂⟩, ?_, ?_⟩
      · simp only [writeOutput, hr, hr']; exact hboth
      · simp [writeOutput, hr, hr']
    | none =>
      -- The trigger takes `null`, so that the last write is never refused.
      have hexec : n.execOut.write .null s₂ =
          .ok (.null, { n.execOut with data := .null, version := n.execOut.version + 1, elements := [] }, s₂) := rfl
      refine ⟨o.slots, List.Subset.refl _, ?_, fun _ => rfl⟩
      have hlast : Writes [.execOut] { n with outputs, controlOutputs } s₂ _ s₂ := .write rfl hexec (.done _ _)
      have := hboth.append hlast
      rw [hall rfl, hall' rfl] at this
      simp only [writeOutput, hr, hr', hexec]
      exact this

/-- What completing an activation does to the ports is a sequence of writes; if all of the result is accepted, to
all of its places. -/
theorem writes_complete (n : Node) (result : Except NodeError Output) (s : Supply) :
    ∃ slots m, slots ⊆ slotsOf result ∧ Writes slots n s m (n.complete result s).2.2 ∧
      (∃ status lastError, (n.complete result s).2.1 = { m with status, lastError }) ∧
      ((n.complete result s).1 = .ok () → slots = slotsOf result) := by
  cases result with
  | error e => exact ⟨[], n, List.Subset.refl _, .done n s, ⟨.failed, some e.message, rfl⟩, fun _ => rfl⟩
  | ok o =>
    obtain ⟨slots, hsub, hwrites, hall⟩ := writes_writeOutput n o s
    rcases hr : n.writeOutput o s with ⟨e, m, s'⟩
    rw [hr] at hwrites hall
    dsimp only at hwrites hall
    cases e with
    | some e =>
      have hc : n.complete (.ok o) s = (.error e, m.failWith e, s') := by simp only [complete, hr]
      rw [hc]
      exact ⟨slots, m, hsub, hwrites, ⟨_, _, rfl⟩, fun h => by cases h⟩
    | none =>
      have hc : n.complete (.ok o) s = (.ok (), { m with status := .success }, s') := by simp only [complete, hr]
      rw [hc]
      exact ⟨slots, m, hsub, hwrites, ⟨_, _, rfl⟩, fun _ => hall rfl⟩

/-! ### What a sequence of writes leaves as it is -/

section Writes

variable {slots : List Slot} {n m : Node} {s s' : Supply}

theorem Writes.triggers (h : Writes slots n s m s') (hs : ∀ slot ∈ slots, slot.isOutput = true) :
    m.triggers = n.triggers := by
  induction h with
  | done => rfl
  | write _ _ _ ih =>
    obtain ⟨hslot, hrest⟩ := List.forall_mem_cons.1 hs
    rw [ih hrest, triggers_setPort hslot]

theorem Writes.portAt?_other (h : Writes slots n s m s') {slot : Slot} (hs : slot ∉ slots) :
    m.portAt? slot = n.portAt? slot := by
  induction h with
  | done => rfl
  | @write slots' slot' _ _ _ _ _ _ _ _ _ _ _ _ ih =>
    rw [List.mem_cons, not_or] at hs
    rw [ih hs.2, portAt?_setPort, if_neg (Ne.symm hs.1)]

end Writes

/-! ### Soundness -/

/-- The groups of a node are in order and all of its ports are sound. -/
structure Sound (n : Node) : Prop where
  ordered : n.Ordered
  ports : ∀ {slot : Slot} {p : Port}, n.portAt? slot = some p → Port.Every Port.Sound p

/-- Every port is on the side of its place, holds a value of its type and keeps count. -/
def Legal (n : Node) : Prop :=
  ∀ slot p, n.portAt? slot = some p → Port.Every (Port.Legal slot.side) p

/-- What every change of a node leaves as it is: its groups and places stay, its identifiers change by dropping
some and drawing others, and none of them gets to another place. -/
structure Renews (s : Supply) (n : Node) (s' : Supply) (n' : Node) : Prop where
  le : s.next ≤ s'.next
  id : n'.id = n.id
  config : n'.config = n.config
  behavior : n'.behavior = n.behavior
  ordered : n.Ordered → n'.Ordered
  occupied : ∀ slot, (n'.portAt? slot).isSome ↔ (n.portAt? slot).isSome
  renews : n.Ordered → s.Renews n.portIds s' n'.portIds
  places : ∀ {slot : Slot} {p' : Port}, n'.portAt? slot = some p' →
    ∃ p, n.portAt? slot = some p ∧ ∀ i ∈ p'.ids, i ∈ p.ids ∨ s.next ≤ i.value

/-- What every change of a node in a run leaves as it is: moreover its ports stay sound and legal. -/
structure Evolves (s : Supply) (n : Node) (s' : Supply) (n' : Node) : Prop extends Renews s n s' n' where
  sound : n.Sound → n'.Sound
  legal : n.Legal → n'.Legal

section Evolves

variable {n n' n'' : Node} {s s' s'' : Supply}

theorem Sound.setPort {slot : Slot} {p : Port} (hn : n.Sound) (hp : Port.Every Port.Sound p) :
    (n.setPort slot p).Sound := by
  refine ⟨hn.ordered.setPort, fun {slot' q} h => ?_⟩
  rw [portAt?_setPort] at h
  split_ifs at h
  · exact Option.some.inj h ▸ hp
  · exact hn.ports h

theorem Legal.setPort {slot : Slot} {p : Port} (hn : n.Legal) (hp : Port.Every (Port.Legal slot.side) p) :
    (n.setPort slot p).Legal := by
  intro slot' q h
  rw [portAt?_setPort] at h
  split_ifs at h with heq
  · cases h
    exact heq ▸ hp
  · exact hn slot' q h

theorem Renews.refl (s : Supply) (n : Node) : Renews s n s n :=
  ⟨le_rfl, rfl, rfl, rfl, fun h => h, fun _ => Iff.rfl, fun _ => Supply.Renews.refl _ _,
    fun h => ⟨_, h, fun _ hi => Or.inl hi⟩⟩

theorem Renews.trans (h : Renews s n s' n') (h' : Renews s' n' s'' n'') : Renews s n s'' n'' where
  le := h.le.trans h'.le
  id := h'.id.trans h.id
  config := h'.config.trans h.config
  behavior := h'.behavior.trans h.behavior
  ordered hn := h'.ordered (h.ordered hn)
  occupied slot := (h'.occupied slot).trans (h.occupied slot)
  renews hn := (h.renews hn).trans (h'.renews (h.ordered hn))
  places hp := by
    obtain ⟨p', hp', hids'⟩ := h'.places hp
    obtain ⟨p, hp, hids⟩ := h.places hp'
    exact ⟨p, hp, fun i hi => (hids' i hi).elim (hids i) fun hle => Or.inr (h.le.trans hle)⟩

/-- No port gets to the output side. -/
theorem Renews.outputs (h : Renews s n s' n') (hn : n.Ordered) :
    ∀ i ∈ n'.outputIds, i ∈ n.outputIds ∨ s.next ≤ i.value := by
  intro i hi
  obtain ⟨slot, p', hs, hp', hi⟩ := (mem_outputIds (h.ordered hn)).1 hi
  obtain ⟨p, hp, hids⟩ := h.places hp'
  exact (hids i hi).imp_left fun hi => (mem_outputIds hn).2 ⟨slot, p, hs, hp, hi⟩

theorem renews_setPort_of_some {slot : Slot} {top p : Port} (htop : n.portAt? slot = some top)
    (hr : s.Renews top.ids s' p.ids) : Renews s n s' (n.setPort slot p) where
  le := hr.le
  id := setPort_id ..
  config := setPort_config ..
  behavior := setPort_behavior ..
  ordered hn := hn.setPort
  occupied slot' := by
    rw [portAt?_setPort]
    split_ifs with heq
    · rw [← heq, htop]
      exact Iff.rfl
    · exact Iff.rfl
  renews hn := renews_setPort hn (by rw [htop]; exact hr)
  places {slot' q} hq := by
    rw [portAt?_setPort] at hq
    split_ifs at hq with heq
    · cases hq
      exact ⟨top, heq ▸ htop, fun i hi => (hr.mem i hi).imp_right And.left⟩
    · exact ⟨q, hq, fun _ hi => Or.inl hi⟩

theorem Evolves.refl (s : Supply) (n : Node) : Evolves s n s n :=
  ⟨.refl s n, fun h => h, fun h => h⟩

theorem Evolves.trans (h : Evolves s n s' n') (h' : Evolves s' n' s'' n'') : Evolves s n s'' n'' :=
  ⟨h.toRenews.trans h'.toRenews, fun hn => h'.sound (h.sound hn), fun hn => h'.legal (h.legal hn)⟩

theorem evolves_setPort {slot : Slot} {top p : Port} (htop : n.portAt? slot = some top)
    (hp : Port.Every Port.Sound top → Port.Every Port.Sound p)
    (hl : Port.Every (Port.Legal slot.side) top → Port.Every (Port.Legal slot.side) p)
    (hr : s.Renews top.ids s' p.ids) : Evolves s n s' (n.setPort slot p) :=
  ⟨renews_setPort_of_some htop hr, fun hn => hn.setPort (hp (hn.ports htop)),
    fun hn => hn.setPort (hl (hn slot top htop))⟩

/-- A change of the trigger side alone. -/
theorem evolves_triggers {f : Port → Port} (hid : n'.id = n.id) (hconfig : n'.config = n.config)
    (hbehavior : n'.behavior = n.behavior) (hord : n.Ordered → n'.Ordered) (hids : n'.portIds = n.portIds)
    (hat : ∀ slot, n'.portAt? slot =
      if slot.isTrigger = true then (n.portAt? slot).map f else n.portAt? slot)
    (hf : ∀ p, (Port.Every Port.Sound p → Port.Every Port.Sound (f p)) ∧
      (∀ side, Port.Every (Port.Legal side) p → Port.Every (Port.Legal side) (f p)) ∧ (f p).ids = p.ids) :
    Evolves s n s n' where
  le := le_rfl
  id := hid
  config := hconfig
  behavior := hbehavior
  ordered := hord
  occupied slot := by
    rw [hat]
    split_ifs
    · rw [Option.isSome_map]
    · exact Iff.rfl
  renews _ := hids ▸ Supply.Renews.refl _ _
  places {slot p} h := by
    rw [hat] at h
    split_ifs at h
    · obtain ⟨q, hq, rfl⟩ := Option.map_eq_some_iff.1 h
      exact ⟨q, hq, fun i hi => Or.inl ((hf q).2.2 ▸ hi)⟩
    · exact ⟨p, h, fun _ hi => Or.inl hi⟩
  sound hn := by
    refine ⟨hord hn.ordered, fun {slot p} h => ?_⟩
    rw [hat] at h
    split_ifs at h
    · obtain ⟨q, hq, rfl⟩ := Option.map_eq_some_iff.1 h
      exact (hf q).1 (hn.ports hq)
    · exact hn.ports h
  legal hn slot p h := by
    rw [hat] at h
    split_ifs at h
    · obtain ⟨q, hq, rfl⟩ := Option.map_eq_some_iff.1 h
      exact (hf q).2.1 slot.side (hn slot q hq)
    · exact hn slot p h

theorem evolves_prepare (s : Supply) (n : Node) : Evolves s n s n.prepare.2 :=
  evolves_triggers rfl rfl rfl Ordered.prepare n.portIds_prepare n.portAt?_prepare
    fun p => ⟨Port.sound_read, fun _ => Port.legal_read, p.ids_read⟩

theorem evolves_clearInputs (s : Supply) (n : Node) : Evolves s n s n.clearInputs :=
  evolves_triggers rfl rfl rfl Ordered.clearInputs n.portIds_clearInputs n.portAt?_clearInputs
    fun p => ⟨Port.sound_clear, fun _ => Port.legal_clear, p.ids_clear⟩

/-- Status and memory do not matter to the ports. -/
theorem evolves_status (s : Supply) (n : Node) (status : NodeStatus) (lastError : Option String)
    (memory : Memory) : Evolves s n s { n with status, lastError, memory } where
  le := le_rfl
  id := rfl
  config := rfl
  behavior := rfl
  ordered hn := ⟨hn.inputs, hn.controlInputs, hn.outputs, hn.controlOutputs⟩
  occupied _ := Iff.rfl
  renews _ := Supply.Renews.refl _ _
  places h := ⟨_, h, fun _ hi => Or.inl hi⟩
  sound hn := ⟨⟨hn.ordered.inputs, hn.ordered.controlInputs, hn.ordered.outputs, hn.ordered.controlOutputs⟩,
    fun h => hn.ports h⟩
  legal hn := hn

theorem evolves_write {id : PortId} {v w : Value} (h : n.write id v s = some (.ok (w, n', s'))) :
    Evolves s n s' n' := by
  obtain ⟨slot, top, top', htop, hw, rfl⟩ := write_eq_ok h
  exact evolves_setPort htop (Port.sound_writeAt hw) (Port.legal_writeAt hw) (Port.renews_writeAt hw)

theorem Writes.evolves {slots : List Slot} (h : Writes slots n s n' s') : Evolves s n s' n' := by
  induction h with
  | done => exact Evolves.refl _ _
  | write hp hw _ ih =>
    exact (evolves_setPort hp (Port.sound_write hw) (Port.legal_write hw) (Port.renews_write hw)).trans ih

theorem triggers_complete (n : Node) (result : Except NodeError Output) (s : Supply) :
    (n.complete result s).2.1.triggers = n.triggers := by
  obtain ⟨slots, m, hsub, hwrites, ⟨status, lastError, heq⟩, -⟩ := writes_complete n result s
  rw [heq]
  exact hwrites.triggers fun slot h => isOutput_of_mem_slotsOf (hsub h)

theorem evolves_complete (n : Node) (result : Except NodeError Output) (s : Supply) :
    Evolves s n (n.complete result s).2.2 (n.complete result s).2.1 := by
  obtain ⟨slots, m, -, hwrites, ⟨status, lastError, heq⟩, -⟩ := writes_complete n result s
  rw [heq]
  exact hwrites.evolves.trans (evolves_status _ m status lastError m.memory)

/-- Every place that was written to is unread. -/
theorem Writes.unread {slots : List Slot} {m : Node} (h : Writes slots n s m s') (hn : n.Legal)
    {slot : Slot} (hs : slot ∈ slots) :
    ∃ p, m.portAt? slot = some p ∧ Port.Every (fun q => q.hasNewData = true) p := by
  induction h with
  | done => exact absurd hs List.not_mem_nil
  | @write slots' slot' n m p p' v w s s₁ s' hp hw hrest ih =>
    by_cases hlater : slot ∈ slots'
    · exact ih (hn.setPort (Port.legal_write hw (hn _ _ hp))) hlater
    · obtain rfl : slot = slot' := (List.mem_cons.1 hs).resolve_right hlater
      refine ⟨p', ?_, Port.unread_write hw (hn _ _ hp)⟩
      rw [hrest.portAt?_other hlater, portAt?_setPort, if_pos rfl]

end Evolves

end Node

end Dataflow
