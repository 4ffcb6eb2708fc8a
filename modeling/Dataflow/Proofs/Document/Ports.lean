import Dataflow.Document
import Dataflow.Proofs.Node

/-!
# Ports that are saved and loaded

* `Port.Storable` says that a port holds a value that can be loaded again: one of its type, without numbers that
  are not finite;
* `q.resume name p` is the port that loading makes of a saved port `p` in the place of a port `q`: on its side and of
  its kind;
* `PortDocument.apply_ofPort`: a saved port with storable contents is loaded;
* `NodeDocument.applyPorts_ofNode`: so are the ports of a saved node, place after place;
* `Node.Resumed n m` says that `m` has the ports of `n` in its places, each on the side of its place.
-/

namespace Dataflow

open Keyed

/-- A value of a type is its own conversion to the type. -/
theorem Value.convert_of_fits {v : Value} {t : DataType} (h : v.Fits t) (hf : v.AllFinite) : v.convert t = .ok v := by
  rcases h with rfl | rfl | rfl
  · rfl
  · -- everything goes into the wildcard, infinities and `nan` too
    cases v <;> simp [convert, convertText, convertNumber, convertInteger, convertBoolean, convertContainer]
  · cases v with
    | number x =>
      replace hf : x.isFinite = true := hf
      simp [convert, convertNumber, Value.dataType, finite, hf, Except.map]
    | _ =>
      simp [convert, convertText, convertInteger, convertBoolean, convertContainer, Value.dataType]

namespace Port

/-- A port whose value is accepted when it is loaded again. -/
structure Storable (p : Port) : Prop where
  typed : p.data.Fits p.dataType
  finite : p.data.AllFinite

mutual
/-- The port that is made of a saved one in the place of `q`. A value counts as one write. -/
def resume (q : Port) (name : String) : Port → Port
  | ⟨id, _, _, _, dataType, data, _, _, elements⟩ =>
    { id, name, direction := q.direction, kind := q.kind, dataType, data,
      version := if data.isNull then 0 else 1, lastRead := 0, elements := resumeAll q elements }
termination_by structural p => p

/-- The element ports that are made of saved ones. They are named by their keys. -/
def resumeAll (q : Port) : List (String × Port) → List (String × Port)
  | [] => []
  | (key, p) :: rest => (key, resume q key p) :: resumeAll q rest
termination_by structural ps => ps
end

theorem resumeAll_eq (q : Port) (es : List (String × Port)) :
    resumeAll q es = es.map fun e => (e.1, q.resume e.1 e.2) := by
  induction es with
  | nil => rfl
  | cons entry rest ih => rw [resumeAll, ih, List.map_cons]

theorem resume_eq (q : Port) (name : String) (p : Port) :
    q.resume name p = { q with
      id := p.id, name, dataType := p.dataType, data := p.data
      version := if p.data.isNull then 0 else 1
      lastRead := 0
      elements := p.elements.map fun e => (e.1, q.resume e.1 e.2) } := by
  obtain ⟨id, _, _, _, dataType, data, _, _, elements⟩ := p
  rw [resume, resumeAll_eq]

@[simp] theorem ids_resume (q : Port) (name : String) (p : Port) : (q.resume name p).ids = p.ids := by
  induction p using Port.induction generalizing name with
  | step p ih =>
    rw [resume_eq, ids_eq, ids_eq p, List.flatMap_map]
    exact congrArg (p.id :: ·) (List.flatMap_congr fun e he => ih e he e.1)

/-- A loaded port and everything below it are on the side of the port that was there. -/
theorem side_resume (q : Port) (name : String) (p : Port) : Every (fun r => r.direction = q.direction) (q.resume name p) := by
  induction p using Port.induction generalizing name with
  | step p ih =>
    rw [resume_eq]
    refine every_iff.2 ⟨rfl, fun e he => ?_⟩
    obtain ⟨e', he', rfl⟩ := List.mem_map.1 he
    exact ih e' he' e'.1

/-- A port with saved state. -/
theorem restored_of_storable {p q : Port} (hp : p.Storable) (es : List (String × Port)) :
    q.restored p.id p.dataType p.data es = .ok { q with
      id := p.id, dataType := p.dataType, data := p.data
      version := if p.data.isNull then 0 else 1
      lastRead := 0
      elements := es } := by
  unfold restored
  by_cases hnull : p.data.isNull = true
  · rw [if_pos hnull]
    rfl
  · rw [if_neg hnull, Value.convert_of_fits hp.typed hp.finite]
    rfl

end Port

namespace PortDocument

open Port

theorem ofPort_fields (p : Port) :
    (ofPort p).id = p.id ∧ (ofPort p).dataType = p.dataType ∧ (ofPort p).data = p.data := by
  obtain ⟨id, name, direction, kind, dataType, data, version, lastRead, elements⟩ := p
  rw [ofPort]
  exact ⟨rfl, rfl, rfl⟩

/-- It does not matter that no elements are saved as a missing list. -/
theorem elementPorts_ofPort (q p : Port) : elementPorts q (ofPort p) = listedPorts q (ofElements p.elements) := by
  obtain ⟨id, name, direction, kind, dataType, data, version, lastRead, elements⟩ := p
  cases elements with
  | nil => rfl
  | cons e rest => rfl

/-- Saved element ports are loaded, given that those below them are. -/
theorem listedPorts_ofElements {q : Port} {es : List (String × Port)} (hes : ∀ e ∈ es, e.2.Storable)
    (hbelow : ∀ e ∈ es, listedPorts q (ofElements e.2.elements) = .ok (resumeAll q e.2.elements)) :
    listedPorts q (ofElements es) = .ok (resumeAll q es) := by
  induction es with
  | nil => rfl
  | cons entry rest ih =>
    obtain ⟨key, p⟩ := entry
    obtain ⟨hp, hrest⟩ := List.forall_mem_cons.1 hes
    obtain ⟨hpbelow, hrestbelow⟩ := List.forall_mem_cons.1 hbelow
    obtain ⟨hid, htype, hdata⟩ := ofPort_fields p
    have hport : ∀ es, (Port.new (ofPort p).id key q.direction q.kind (ofPort p).dataType).restored (ofPort p).id
        (ofPort p).dataType (ofPort p).data es = .ok { q with
          id := p.id, name := key, dataType := p.dataType, data := p.data
          version := if p.data.isNull then 0 else 1
          lastRead := 0
          elements := es } := fun es => by
      rw [hid, htype, hdata, restored_of_storable hp]
      rfl
    rw [ofElements, listedPorts, elementPorts_ofPort, hpbelow]
    simp only [bind, Except.bind, hport, ih hrest hrestbelow, pure, Except.pure]
    rw [resumeAll, resume_eq, resumeAll_eq q p.elements]

theorem elements_ofPort (q : Port) {p : Port} (hp : Every Storable p) :
    listedPorts q (ofElements p.elements) = .ok (resumeAll q p.elements) := by
  induction p using Port.induction with
  | step p ih =>
    exact listedPorts_ofElements (fun e he => (hp.element he).self) fun e he => ih e he (hp.element he)

/-- **A saved port is loaded**: its identifier, type, value and element ports come back. -/
theorem apply_ofPort (q : Port) {p : Port} (hp : Every Storable p) : (ofPort p).apply q = .ok (q.resume q.name p) := by
  obtain ⟨hid, htype, hdata⟩ := ofPort_fields p
  rw [apply, elementPorts_ofPort, elements_ofPort q hp]
  simp only [bind, Except.bind, hid, htype, hdata, restored_of_storable hp.self, Except.mapError]
  rw [resume_eq, resumeAll_eq]

end PortDocument

/-! ### The ports of a node -/

namespace Node

/-- The top-level ports with their places, in the order in which they are saved. -/
def savedEntries (n : Node) : Table Slot Port :=
  (.execIn, n.execIn) :: (.execOut, n.execOut) :: placed .input n.inputs ++ placed .output n.outputs ++
    placed .controlInput n.controlInputs ++ placed .controlOutput n.controlOutputs

theorem savedEntries_perm (n : Node) : n.savedEntries.Perm n.entries := by
  classical
  rw [List.perm_iff_count]
  intro e
  simp only [savedEntries, entries, List.count_append, List.count_cons]
  omega

theorem proper_savedEntries {n : Node} (hn : n.Ordered) : Table.Proper n.savedEntries :=
  (n.savedEntries_perm.map Prod.fst).nodup_iff.2 hn.proper

theorem find?_savedEntries {n : Node} (hn : n.Ordered) (slot : Slot) :
    Table.find? slot n.savedEntries = n.portAt? slot := by
  ext p
  rw [← mem_entries hn, ← n.savedEntries_perm.mem_iff]
  exact ⟨Table.mem_of_find?, (proper_savedEntries hn).find?_of_mem⟩

/-- The node `m` has the ports of `n` in its places, each port on the side of its place. -/
structure Resumed (n m : Node) : Prop where
  id : m.id = n.id
  ordered : m.Ordered
  ids : ∀ slot, (m.portAt? slot).map Port.ids = (n.portAt? slot).map Port.ids
  side : ∀ {slot : Slot} {top : Port}, m.portAt? slot = some top → Port.Every (fun r => r.direction = slot.side) top

theorem Resumed.mem_portIds {n m : Node} (h : n.Resumed m) (hn : n.Ordered) {p : PortId} :
    p ∈ m.portIds ↔ p ∈ n.portIds := by
  rw [Node.mem_portIds h.ordered, Node.mem_portIds hn]
  have hslot : ∀ slot, (∃ top, m.portAt? slot = some top ∧ p ∈ top.ids) ↔
      ∃ top, n.portAt? slot = some top ∧ p ∈ top.ids := fun slot => by
    have hids := h.ids slot
    cases hm : m.portAt? slot <;> cases hn' : n.portAt? slot <;> simp_all
  exact exists_congr hslot

end Node

namespace NodeDocument

open PortDocument

theorem slots_ofNode (n : Node) : (ofNode n).slots = n.savedEntries.map fun e => (e.1, ofPort e.2) := by
  simp [slots, ofNode, Node.savedEntries, Node.placed, mapValues, Function.comp_def]

/-- Saved ports are brought into the places that a node has. -/
theorem applyPorts_saved (es : Table Slot Port) (hes : Table.Proper es) (hstore : ∀ e ∈ es, Port.Every Port.Storable e.2)
    {m : Node} (hm : m.Ordered) :
    ∃ m', applyPorts (es.map fun e => (e.1, ofPort e.2)) m = .ok m' ∧ m'.id = m.id ∧ m'.behavior = m.behavior ∧
      m'.Ordered ∧
      ∀ slot, m'.portAt? slot = (m.portAt? slot).map fun q => (Table.find? slot es).elim q (q.resume q.name) := by
  induction es generalizing m with
  | nil => exact ⟨m, rfl, rfl, rfl, hm, fun slot => by simp⟩
  | cons entry rest ih =>
    obtain ⟨slot, p⟩ := entry
    obtain ⟨hnew, hrest⟩ := List.nodup_cons.1 hes
    obtain ⟨hp, hstore'⟩ := List.forall_mem_cons.1 hstore
    have hlast : Table.find? slot rest = none := Table.find?_eq_none.2 hnew
    rw [List.map_cons, applyPorts]
    cases hq : m.portAt? slot with
    | none =>
      obtain ⟨m', happly, hid, hb, hord, hat⟩ := ih hrest hstore' hm
      refine ⟨m', happly, hid, hb, hord, fun slot' => ?_⟩
      rw [hat, Table.find?_cons]
      split_ifs with heq
      · rw [← heq, hq]
        rfl
      · rfl
    | some q =>
      have hset : (m.setPort slot (q.resume q.name p)).Ordered := hm.setPort
      obtain ⟨m', happly, hid, hb, hord, hat⟩ := ih hrest hstore' hset
      refine ⟨m', ?_, hid.trans (Node.setPort_id ..), hb.trans (Node.setPort_behavior ..), hord, fun slot' => ?_⟩
      · simp only [apply_ofPort q hp, bind, Except.bind]
        exact happly
      · rw [hat, Node.portAt?_setPort, Table.find?_cons]
        split_ifs with heq
        · rw [← heq, hq, hlast]
          rfl
        · rfl

/-- **The ports of a saved node are loaded** into a node with the same places. -/
theorem applyPorts_ofNode {n m : Node} (hn : n.Ordered)
    (hstore : ∀ {slot : Slot} {top : Port}, n.portAt? slot = some top → Port.Every Port.Storable top) (hm : m.Ordered)
    (hslots : ∀ slot, (m.portAt? slot).isSome ↔ (n.portAt? slot).isSome) :
    ∃ m', applyPorts (ofNode n).slots m = .ok m' ∧ m'.id = m.id ∧ m'.behavior = m.behavior ∧ m'.Ordered ∧
      ∀ slot, m'.portAt? slot = (n.portAt? slot).bind fun p => (m.portAt? slot).map fun q => q.resume q.name p := by
  rw [slots_ofNode]
  obtain ⟨m', happly, hid, hb, hord, hat⟩ := applyPorts_saved n.savedEntries
    (Node.proper_savedEntries hn)
    (fun e he => hstore ((Node.mem_entries hn).1 (n.savedEntries_perm.mem_iff.1 he))) hm
  refine ⟨m', happly, hid, hb, hord, fun slot => ?_⟩
  rw [hat, Node.find?_savedEntries hn]
  have hplace := hslots slot
  cases hp : n.portAt? slot with
  | none =>
    have hnone : m.portAt? slot = none := by simpa [hp] using hplace
    rw [hnone]
    rfl
  | some p => rfl

end NodeDocument

end Dataflow
