import Dataflow.Codec.Document
import Dataflow.Proofs.Document.Tree
import Dataflow.Proofs.Id
import Dataflow.Proofs.Json.Records
import Dataflow.Proofs.Json.Values

/-!
# Documents and their texts

A document is read back from its text: what is left out when it is written has the value that reading gives it.

* `GraphDocument.WellFormed` says that identifiers have 128 bits and that named things are in ascending order, each
  name once;
* `PortDocument.ofJsonWithin_toJson`, `NodePorts.ofJson_toJson`, `NodeDocument.ofJson_toJson`,
  `GraphDocument.ofJson_toJson`: the tree of a document stands for it;
* `GraphDocument.exact_toJson`: without numbers, the tree is one that is read back from its texts;
* `GraphDocument.text_undone`: so the document is read back from both of its texts.
-/

namespace Dataflow

open Keyed Record

/-! ### Identifiers, types and edges -/

theorem Id.ofJson_toJson {id : Id} (h : id.InRange) : ofJson id.toJson = .ok id := by
  simp only [toJson, ofJson, Codec.string, bind, Except.bind, read?_text h]
  rfl

theorem DataType.ofJson_toJson (t : DataType) : ofJson t.toJson = .ok t := by
  cases t <;> rfl

theorem Id.exact_toJson (id : Id) : id.toJson.Exact := trivial

theorem DataType.exact_toJson (t : DataType) : t.toJson.Exact := trivial

namespace Edge

/-- Both ends of an edge have 128 bits. -/
def InRange (e : Edge) : Prop :=
  e.source.InRange ∧ e.target.InRange

/-- The fields of an edge. -/
def fields (e : Edge) : List (String × Option Json) :=
  [("fromPortId", some e.source.toJson), ("toPortId", some e.target.toJson)]

theorem toJson_eq (e : Edge) : e.toJson = .object (present e.fields) := rfl

/-- The tree of an edge stands for it. -/
theorem ofJson_toJson {e : Edge} (h : e.InRange) : ofJson e.toJson = .ok e := by
  have hnames : keys e.fields = ["fromPortId", "toPortId"] := rfl
  have hn : ["fromPortId", "toPortId"].Nodup := by decide
  rw [toJson_eq, ofJson, read_present hnames hn]
  simp only [bind, Except.bind, required_present hnames hn "fromPortId" rfl, required_present hnames hn "toPortId" rfl,
    Id.ofJson_toJson h.1, Id.ofJson_toJson h.2]
  rfl

theorem exact_toJson (e : Edge) : e.toJson.Exact :=
  ⟨Id.exact_toJson _, Id.exact_toJson _, trivial⟩

end Edge

/-! ### Named values -/

namespace Value

theorem fieldsToJson_eq (fields : Keyed Value) : fieldsToJson fields = mapValues toJson fields := by
  induction fields with
  | nil => rfl
  | cons field rest ih => rw [fieldsToJson, ih]; rfl

theorem fieldsOrdered_iff {fields : Keyed Value} : FieldsOrdered fields ↔ ∀ e ∈ fields, e.2.IsOrdered := by
  induction fields with
  | nil => simp [FieldsOrdered]
  | cons field rest ih => rw [FieldsOrdered, ih, List.forall_mem_cons]

end Value

/-- The tree of named values stands for them. -/
theorem NamedValues.ofJson_toJson {values : NamedValues} (h : (Value.object values).IsOrdered) :
    ofJson (toJson values) = .ok values := by
  rw [ofJson, toJson, Value.toJson, Value.fieldsToJson_eq]
  exact Codec.keyed_mapValues h.1 fun e he => Value.ofJson_toJson e.2 (Value.fieldsOrdered_iff.1 h.2 e he)

/-! ### Ports -/

namespace PortDocument

/-- An identifier of 128 bits, a value in order, and element ports in ascending order of their keys. -/
@[mk_iff]
structure WellFormed (d : PortDocument) : Prop where
  id : d.id.InRange
  data : d.data.IsOrdered
  children : Ascending d.children

/-- The fields of a port. -/
def fields (d : PortDocument) : List (String × Option Json) :=
  [("id", some d.id.toJson), ("dataType", some d.dataType.toJson), ("data", some d.data.toJson),
   ("children", d.elements.map fun documents => .object (mapValues toJson documents))]

theorem membersOf_eq (ds : List (String × PortDocument)) : membersOf ds = mapValues toJson ds := by
  induction ds with
  | nil => rfl
  | cons entry rest ih => rw [membersOf, ih]; rfl

theorem toJson_eq (d : PortDocument) : d.toJson = .object (present d.fields) := by
  obtain ⟨id, t, v, elements⟩ := d
  cases elements with
  | none => rfl
  | some documents => rw [toJson, elementsMember, membersOf_eq]; rfl

/-- The tree of an element port nests less. -/
theorem depth_toJson_child {d : PortDocument} {e : String × PortDocument} (he : e ∈ d.children) :
    e.2.toJson.depth + 1 < d.toJson.depth := by
  obtain ⟨documents, hdocuments⟩ : ∃ documents, d.elements = some documents := by
    cases h : d.elements with
    | none =>
      rw [children, h] at he
      exact absurd he List.not_mem_nil
    | some documents => exact ⟨documents, rfl⟩
  rw [children, hdocuments] at he
  have hchild : (e.1, e.2.toJson) ∈ mapValues toJson documents := List.mem_map.2 ⟨e, he, rfl⟩
  have hmember : ("children", some (Json.object (mapValues toJson documents))) ∈ d.fields := by
    simp [fields, hdocuments]
  have hinner := Json.depth_lt_of_mem hchild
  have houter := depth_lt_of_mem_fields hmember
  rw [toJson_eq d]
  exact (Nat.succ_lt_succ hinner).trans_le (Nat.succ_le_of_lt houter)

/-- **The tree of a port stands for it**, if it may nest as many ports as the tree nests containers. -/
theorem ofJsonWithin_toJson {d : PortDocument} (hd : ∀ part ∈ d.flatten, part.WellFormed) {depth : Nat}
    (hdepth : d.toJson.depth ≤ depth) : ofJsonWithin depth d.toJson = .ok d := by
  induction d using PortDocument.induction generalizing depth with
  | step d ih =>
    obtain ⟨hself, hbelow⟩ := forall_mem_flatten.1 hd
    obtain ⟨depth, rfl⟩ : ∃ n, depth = n + 1 := by
      refine Nat.exists_eq_add_one.2 (Nat.lt_of_lt_of_le ?_ hdepth)
      rw [toJson_eq]
      exact Nat.succ_pos _
    have helements : (d.elements.map fun documents => Json.object (mapValues toJson documents)).elim (.ok none)
        (nullable (Codec.keyed (ofJsonWithin depth))) = .ok d.elements := by
      cases hdocuments : d.elements with
      | none => rfl
      | some documents =>
        have hchildren : d.children = documents := by rw [children, hdocuments]; rfl
        have hread : Codec.keyed (ofJsonWithin depth) (.object (mapValues toJson documents)) = .ok documents := by
          refine Codec.keyed_mapValues (hchildren ▸ hself.children) fun e he => ?_
          rw [← hchildren] at he
          have hless := depth_toJson_child he
          exact ih e he (hbelow e he) (by omega)
        rw [Option.map_some, Option.elim_some, nullable, hread]
        · rfl
        · exact fun h => Json.noConfusion h
    have hnames : keys d.fields = fieldNames := rfl
    have hn : fieldNames.Nodup := by decide
    rw [toJson_eq, ofJsonWithin, read_present hnames hn]
    simp only [bind, Except.bind, required_present hnames hn "id" rfl, required_present hnames hn "dataType" rfl,
      defaulted_present hnames hn "data" rfl, defaulted_present hnames hn "children" rfl, Option.elim_some, helements,
      Id.ofJson_toJson hself.id, DataType.ofJson_toJson, Value.ofJson_toJson d.data hself.data]
    cases d
    rfl

/-- Without numbers, the tree of a port is read back from its texts. -/
theorem exact_toJson {d : PortDocument} (hd : ∀ part ∈ d.flatten, part.WellFormed)
    (hfree : ∀ part ∈ d.flatten, part.data.NumberFree) : d.toJson.Exact := by
  induction d using PortDocument.induction with
  | step d ih =>
    obtain ⟨hself, hbelow⟩ := forall_mem_flatten.1 hd
    obtain ⟨hfree, hfreeBelow⟩ := forall_mem_flatten.1 hfree
    rw [toJson_eq]
    refine exact_present ?_
    simp only [fields, List.forall_mem_cons, Option.mem_def, Option.some.injEq, forall_eq']
    refine ⟨Id.exact_toJson _, DataType.exact_toJson _, Value.exact_toJson _ hself.data hfree, fun j hj => ?_,
      List.forall_mem_nil _⟩
    obtain ⟨documents, hdocuments, rfl⟩ := Option.map_eq_some_iff.1 hj
    have hchildren : d.children = documents := by rw [children, hdocuments]; rfl
    refine Json.membersExact_iff.2 fun member hmember => ?_
    obtain ⟨e, he, rfl⟩ := List.mem_map.1 hmember
    rw [← hchildren] at he
    exact ih e he (hbelow e he) (hfreeBelow e he)

end PortDocument

/-! ### Nodes -/

namespace NodePorts

/-- The documents of the ports, place by place. -/
def documents (p : NodePorts) : List PortDocument :=
  p.execIn.toList ++ p.execOut.toList ++ values p.inputs ++ values p.outputs ++ values p.controlInputs ++
    values p.controlOutputs

/-- The named ports are in ascending order of their names. -/
structure Ordered (p : NodePorts) : Prop where
  inputs : Ascending p.inputs
  outputs : Ascending p.outputs
  controlInputs : Ascending p.controlInputs
  controlOutputs : Ascending p.controlOutputs

/-- The tree of a group of ports, if there are any. -/
def groupJson? (ports : Keyed PortDocument) : Option Json :=
  if ports.isEmpty then none else some (.object (mapValues PortDocument.toJson ports))

/-- The fields for the ports of a node. -/
def fields (p : NodePorts) : List (String × Option Json) :=
  [("inExec", p.execIn.map PortDocument.toJson), ("outExec", p.execOut.map PortDocument.toJson),
   ("inputs", groupJson? p.inputs), ("outputs", groupJson? p.outputs), ("controlInputs", groupJson? p.controlInputs),
   ("controlOutputs", groupJson? p.controlOutputs)]

theorem portMember_eq (name : String) (o : Option PortDocument) :
    portMember name o = present [(name, o.map PortDocument.toJson)] := by
  cases o <;> rfl

theorem groupMember_eq (name : String) (ports : Keyed PortDocument) :
    groupMember name ports = present [(name, groupJson? ports)] := by
  rw [groupMember, groupJson?, PortDocument.membersOf_eq]
  split_ifs <;> rfl

theorem toJson_eq (p : NodePorts) : p.toJson = .object (present p.fields) := by
  rw [toJson, portMember_eq, portMember_eq, groupMember_eq, groupMember_eq, groupMember_eq, groupMember_eq]
  simp only [present, ← List.filterMap_append]
  rfl

section Documents

variable {p : NodePorts}

/-- The tree of a port of a node nests less. -/
theorem depth_toJson_document {d : PortDocument} (hd : d ∈ p.documents) : d.toJson.depth < p.toJson.depth := by
  rw [toJson_eq]
  have hport : ∀ name (o : Option PortDocument), (name, o.map PortDocument.toJson) ∈ p.fields → d ∈ o.toList →
      d.toJson.depth < (Json.object (present p.fields)).depth := by
    intro name o hmem hd
    obtain rfl : o = some d := Option.mem_toList.1 hd
    exact depth_lt_of_mem_fields hmem
  have hgroup : ∀ name ports, (name, groupJson? ports) ∈ p.fields → d ∈ values ports →
      d.toJson.depth < (Json.object (present p.fields)).depth := by
    intro name ports hmem hd
    obtain ⟨e, he, rfl⟩ := List.mem_map.1 hd
    have hsome : groupJson? ports = some (.object (mapValues PortDocument.toJson ports)) :=
      if_neg (by simpa using List.ne_nil_of_mem he)
    have hmember : (e.1, e.2.toJson) ∈ mapValues PortDocument.toJson ports := List.mem_map.2 ⟨e, he, rfl⟩
    exact (Json.depth_lt_of_mem hmember).trans (depth_lt_of_mem_fields (hsome ▸ hmem))
  simp only [documents, List.mem_append] at hd
  rcases hd with ((((hd | hd) | hd) | hd) | hd) | hd
  · exact hport "inExec" p.execIn (by simp [fields]) hd
  · exact hport "outExec" p.execOut (by simp [fields]) hd
  · exact hgroup "inputs" p.inputs (by simp [fields]) hd
  · exact hgroup "outputs" p.outputs (by simp [fields]) hd
  · exact hgroup "controlInputs" p.controlInputs (by simp [fields]) hd
  · exact hgroup "controlOutputs" p.controlOutputs (by simp [fields]) hd

/-- A port that may be missing is read back. -/
theorem port_undone {o : Option PortDocument} (h : ∀ d ∈ o.toList, PortDocument.ofJson d.toJson = .ok d) :
    (o.map PortDocument.toJson).elim (.ok none) (nullable PortDocument.ofJson) = .ok o := by
  cases o with
  | none => rfl
  | some d =>
    have hread := h d (List.mem_singleton_self d)
    rw [PortDocument.toJson_eq] at hread
    rw [Option.map_some, Option.elim_some, PortDocument.toJson_eq, nullable, hread]
    · rfl
    · exact fun h => Json.noConfusion h

/-- A group of ports is read back, also if it is empty. -/
theorem group_undone {ports : Keyed PortDocument} (ha : Ascending ports)
    (h : ∀ d ∈ values ports, PortDocument.ofJson d.toJson = .ok d) :
    (groupJson? ports).elim (.ok []) (Codec.keyed PortDocument.ofJson) = .ok ports := by
  unfold groupJson?
  split_ifs with hempty
  · rw [List.isEmpty_iff.1 hempty]
    rfl
  · exact Codec.keyed_mapValues ha fun e he => h e.2 (List.mem_map.2 ⟨e, he, rfl⟩)

/-- **The tree of the ports of a node stands for them.** -/
theorem ofJson_toJson (hp : p.Ordered) (hports : ∀ d ∈ p.documents, ∀ part ∈ d.flatten, part.WellFormed)
    (hdepth : p.toJson.depth ≤ Json.maxDepth) : ofJson p.toJson = .ok p := by
  have hread : ∀ d ∈ p.documents, PortDocument.ofJson d.toJson = .ok d := fun d hd =>
    PortDocument.ofJsonWithin_toJson (hports d hd) ((depth_toJson_document hd).le.trans hdepth)
  simp only [documents, List.forall_mem_append] at hread
  obtain ⟨⟨⟨⟨⟨hexecIn, hexecOut⟩, hinputs⟩, houtputs⟩, hcontrolInputs⟩, hcontrolOutputs⟩ := hread
  have hnames : keys p.fields = fieldNames := rfl
  have hn : fieldNames.Nodup := by decide
  rw [toJson_eq, ofJson, read_present hnames hn]
  simp only [bind, Except.bind, defaulted_present hnames hn "inExec" rfl, defaulted_present hnames hn "outExec" rfl,
    defaulted_present hnames hn "inputs" rfl, defaulted_present hnames hn "outputs" rfl,
    defaulted_present hnames hn "controlInputs" rfl, defaulted_present hnames hn "controlOutputs" rfl,
    port_undone hexecIn, port_undone hexecOut, group_undone hp.inputs hinputs, group_undone hp.outputs houtputs,
    group_undone hp.controlInputs hcontrolInputs, group_undone hp.controlOutputs hcontrolOutputs]
  rfl

theorem exact_toJson (hports : ∀ d ∈ p.documents, d.toJson.Exact) : p.toJson.Exact := by
  have hport : ∀ (o : Option PortDocument), (∀ d ∈ o.toList, d.toJson.Exact) →
      ∀ j ∈ o.map PortDocument.toJson, j.Exact := by
    intro o h j hj
    obtain ⟨d, rfl, rfl⟩ := Option.map_eq_some_iff.1 hj
    exact h d (List.mem_singleton_self d)
  have hgroup : ∀ (ports : Keyed PortDocument), (∀ d ∈ values ports, d.toJson.Exact) →
      ∀ j ∈ groupJson? ports, j.Exact := by
    intro ports h j hj
    rw [Option.mem_def, groupJson?] at hj
    split_ifs at hj
    cases hj
    refine Json.membersExact_iff.2 fun member hmember => ?_
    obtain ⟨e, he, rfl⟩ := List.mem_map.1 hmember
    exact h e.2 (List.mem_map.2 ⟨e, he, rfl⟩)
  simp only [documents, List.forall_mem_append] at hports
  obtain ⟨⟨⟨⟨⟨hexecIn, hexecOut⟩, hinputs⟩, houtputs⟩, hcontrolInputs⟩, hcontrolOutputs⟩ := hports
  rw [toJson_eq]
  refine exact_present ?_
  simp only [fields, List.forall_mem_cons]
  exact ⟨hport _ hexecIn, hport _ hexecOut, hgroup _ hinputs, hgroup _ houtputs, hgroup _ hcontrolInputs,
    hgroup _ hcontrolOutputs, List.forall_mem_nil _⟩

end Documents

end NodePorts

namespace NodeDocument

/-- Identifiers have 128 bits, and named things are in ascending order, each name once. -/
structure WellFormed (d : NodeDocument) : Prop where
  id : d.id.InRange
  config : (Value.object d.config).IsOrdered
  places : d.ports.Ordered
  ports : ∀ port ∈ d.ports.documents, ∀ part ∈ port.flatten, part.WellFormed

/-- The values in a document: its settings, and what its ports and their element ports hold. -/
def values (d : NodeDocument) : List Value :=
  .object d.config :: d.ports.documents.flatMap fun port => port.flatten.map PortDocument.data

/-- The fields of a node. -/
def fields (d : NodeDocument) : List (String × Option Json) :=
  [("id", some d.id.toJson), ("typeId", some (.string d.typeId)), ("label", some (.string d.label)),
   ("context", some (NamedValues.toJson d.config)), ("ports", some d.ports.toJson)]

theorem toJson_eq (d : NodeDocument) : d.toJson = .object (present d.fields) := rfl

/-- **The tree of a node stands for it.** -/
theorem ofJson_toJson {d : NodeDocument} (hd : d.WellFormed) (hdepth : d.toJson.depth ≤ Json.maxDepth) :
    ofJson d.toJson = .ok d := by
  have hmember : ("ports", some d.ports.toJson) ∈ d.fields := by simp [fields]
  have hports : d.ports.toJson.depth ≤ Json.maxDepth := (depth_lt_of_mem_fields hmember).le.trans hdepth
  have hnames : keys d.fields = ["id", "typeId", "label", "context", "ports"] := rfl
  have hn : ["id", "typeId", "label", "context", "ports"].Nodup := by decide
  rw [toJson_eq, ofJson, read_present hnames hn]
  simp only [bind, Except.bind, required_present hnames hn "id" rfl, required_present hnames hn "typeId" rfl,
    required_present hnames hn "label" rfl, defaulted_present hnames hn "context" rfl,
    defaulted_present hnames hn "ports" rfl, Option.elim_some, Codec.string, Id.ofJson_toJson hd.id,
    NamedValues.ofJson_toJson hd.config, NodePorts.ofJson_toJson hd.places hd.ports hports]
  rfl

theorem exact_toJson {d : NodeDocument} (hd : d.WellFormed) (hfree : ∀ v ∈ d.values, v.NumberFree) : d.toJson.Exact := by
  obtain ⟨hconfig, hvalues⟩ := List.forall_mem_cons.1 hfree
  rw [toJson_eq]
  refine exact_present ?_
  simp only [fields, List.forall_mem_cons, Option.mem_def, Option.some.injEq, forall_eq']
  refine ⟨Id.exact_toJson _, trivial, trivial, Value.exact_toJson _ hd.config hconfig, ?_, List.forall_mem_nil _⟩
  refine NodePorts.exact_toJson fun port hport => PortDocument.exact_toJson (hd.ports port hport) fun part hpart => ?_
  exact hvalues part.data (List.mem_flatMap.2 ⟨port, hport, List.mem_map.2 ⟨part, hpart, rfl⟩⟩)

end NodeDocument

/-! ### Graphs -/

namespace GraphDocument

/-- Identifiers have 128 bits, and named things are in ascending order, each name once. -/
structure WellFormed (d : GraphDocument) : Prop where
  nodes : ∀ n ∈ d.nodes, n.WellFormed
  edges : ∀ e ∈ d.edges, e.InRange

/-- The values in a document. -/
def values (d : GraphDocument) : List Value :=
  d.nodes.flatMap NodeDocument.values

/-- The fields of a graph. -/
def fields (d : GraphDocument) : List (String × Option Json) :=
  [("nodes", some (.array (d.nodes.map NodeDocument.toJson))), ("edges", some (.array (d.edges.map Edge.toJson)))]

theorem toJson_eq (d : GraphDocument) : d.toJson = .object (present d.fields) := rfl

/-- **The tree of a graph stands for it.** -/
theorem ofJson_toJson {d : GraphDocument} (hd : d.WellFormed) (hdepth : d.toJson.depth ≤ Json.maxDepth) :
    ofJson d.toJson = .ok d := by
  have hmember : ("nodes", some (Json.array (d.nodes.map NodeDocument.toJson))) ∈ d.fields := by simp [fields]
  have hnodes : Codec.list NodeDocument.ofJson (.array (d.nodes.map NodeDocument.toJson)) = .ok d.nodes := by
    refine Codec.list_map fun n hn => NodeDocument.ofJson_toJson (hd.nodes n hn) ?_
    have hinner := Json.depth_lt_of_mem_items (List.mem_map_of_mem (f := NodeDocument.toJson) hn)
    exact (hinner.trans (depth_lt_of_mem_fields hmember)).le.trans hdepth
  have hedges : Codec.list Edge.ofJson (.array (d.edges.map Edge.toJson)) = .ok d.edges :=
    Codec.list_map fun e he => Edge.ofJson_toJson (hd.edges e he)
  have hnames : keys d.fields = ["nodes", "edges"] := rfl
  have hn : ["nodes", "edges"].Nodup := by decide
  rw [toJson_eq, ofJson, read_present hnames hn]
  simp only [bind, Except.bind, required_present hnames hn "nodes" rfl, required_present hnames hn "edges" rfl, hnodes,
    hedges]
  rfl

/-- Without numbers, the tree of a graph is read back from its texts. -/
theorem exact_toJson {d : GraphDocument} (hd : d.WellFormed) (hfree : ∀ v ∈ d.values, v.NumberFree) :
    d.toJson.Exact := by
  rw [toJson_eq]
  refine exact_present ?_
  simp only [fields, List.forall_mem_cons, Option.mem_def, Option.some.injEq, forall_eq']
  refine ⟨Json.itemsExact_iff.2 fun j hj => ?_, Json.itemsExact_iff.2 fun j hj => ?_, List.forall_mem_nil _⟩
  · obtain ⟨n, hn, rfl⟩ := List.mem_map.1 hj
    exact NodeDocument.exact_toJson (hd.nodes n hn) fun v hv => hfree v (List.mem_flatMap.2 ⟨n, hn, hv⟩)
  · obtain ⟨e, -, rfl⟩ := List.mem_map.1 hj
    exact e.exact_toJson

/-- **The text of a document undoes itself.** A document without numbers whose tree nests at most 127 containers is read
back from its compact text and from its pretty text: missing and empty lists of element ports are told apart, and so
are missing triggers, values that are `null` and empty groups of ports. -/
theorem text_undone {d : GraphDocument} (hd : d.WellFormed) (hfree : ∀ v ∈ d.values, v.NumberFree)
    (hdepth : d.toJson.depth ≤ 127) : read d.text = .ok d ∧ read d.prettyText = .ok d :=
  ⟨Json.decode_ofList (Json.read_compact (exact_toJson hd hfree) hdepth) (ofJson_toJson hd hdepth),
    Json.decode_ofList (Json.read_pretty (exact_toJson hd hfree) hdepth) (ofJson_toJson hd hdepth)⟩

/-- A node with settings and ports of all shapes: triggers that are missing and there, element ports that are missing,
empty and nested, a value that is `null`, and groups without ports. -/
def unusualNode : NodeDocument where
  id := ⟨2 ^ 128 - 1⟩
  typeId := ""
  label := "\x00\"\\😀"
  config := [("", .null), ("\n", .array [.integer (-1), .object []])]
  ports :=
    { execIn := none
      execOut := some ⟨⟨1⟩, .null, .null, some []⟩
      inputs :=
        [("", ⟨⟨2⟩, .array, .array [.string "\x7b"], some [("0", ⟨⟨3⟩, .string, .string "\x7b", none⟩)]⟩),
         ("é", ⟨⟨4⟩, .object, .null, some []⟩)]
      outputs := []
      controlInputs := []
      controlOutputs := [("c", ⟨⟨5⟩, .boolean, .boolean true, none⟩)] }

/-- The node with an edge to itself. -/
def unusual : GraphDocument :=
  { nodes := [unusualNode], edges := [⟨⟨5⟩, ⟨3⟩⟩] }

theorem unusual_undone : unusual.WellFormed ∧ (∀ v ∈ unusual.values, v.NumberFree) ∧ unusual.toJson.depth ≤ 127 ∧
    read unusual.text = .ok unusual ∧ read unusual.prettyText = .ok unusual := by
  have hparts : ∀ port ∈ unusualNode.ports.documents, ∀ part ∈ port.flatten, part.WellFormed ∧ part.data.NumberFree := by
    simp [unusualNode, NodePorts.documents, Keyed.values, PortDocument.flatten, PortDocument.flattenOptional,
      PortDocument.flattenAll, PortDocument.wellFormed_iff, PortDocument.children, Keyed.Ascending, Keyed.keys,
      Id.InRange, Value.IsOrdered, Value.ItemsOrdered, Value.NumberFree, Value.ItemsNumberFree]
  have hconfig : (Value.object unusualNode.config).IsOrdered ∧ (Value.object unusualNode.config).NumberFree := by
    refine ⟨⟨by decide, ?_⟩, ?_⟩
    · simp [unusualNode, Value.IsOrdered, Value.ItemsOrdered, Value.FieldsOrdered, Value.integerInRange_iff]
    · simp [unusualNode, Value.NumberFree, Value.ItemsNumberFree, Value.FieldsNumberFree]
  have hplaces : unusualNode.ports.Ordered := ⟨by decide, by decide, by decide, by decide⟩
  have hd : unusual.WellFormed := {
    nodes := List.forall_mem_singleton.2
      ⟨by decide, hconfig.1, hplaces, fun port hport part hpart => (hparts port hport part hpart).1⟩
    edges := List.forall_mem_singleton.2 ⟨by decide, by decide⟩ }
  have hfree : ∀ v ∈ unusual.values, v.NumberFree := by
    intro v hv
    obtain ⟨n, hn, hv⟩ := List.mem_flatMap.1 hv
    obtain rfl := List.mem_singleton.1 hn
    rcases List.mem_cons.1 hv with rfl | hv
    · exact hconfig.2
    · obtain ⟨port, hport, hv⟩ := List.mem_flatMap.1 hv
      obtain ⟨part, hpart, rfl⟩ := List.mem_map.1 hv
      exact (hparts port hport part hpart).2
  have hdepth : unusual.toJson.depth ≤ 127 := by decide
  exact ⟨hd, hfree, hdepth, text_undone hd hfree hdepth⟩

end GraphDocument

end Dataflow
