import Dataflow.Proofs.Port.Elements

/-!
# Ports as trees

* `Port.induction`: what passes from the element ports to a port holds of every port;
* `Port.ids_eq`, `Port.flatten_eq`, `Port.clear_eq`: the recursions over ports, one level at a time;
* `Port.Every P p` says that `P` holds of `p` and of everything below it;
* `Port.mem_flatten_iff_atPath?`: the ports of a tree are those at its paths;
* `Port.find?_eq_some_iff`: in a tree with distinct identifiers, look-up finds every port.
-/

namespace Dataflow.Port

open Keyed

section Induction

variable {motive : Port → Prop}

mutual
theorem induction_aux (step : ∀ p : Port, (∀ e ∈ p.elements, motive e.2) → motive p) (p : Port) : motive p := by
  obtain ⟨id, name, direction, kind, dataType, data, version, lastRead, elements⟩ := p
  exact step _ (induction_list step elements)
termination_by structural p

theorem induction_list (step : ∀ p : Port, (∀ e ∈ p.elements, motive e.2) → motive p)
    (es : List (String × Port)) : ∀ e ∈ es, motive e.2 := by
  cases es with
  | nil => exact fun e he => absurd he List.not_mem_nil
  | cons entry rest =>
    obtain ⟨key, p⟩ := entry
    intro e he
    rcases List.mem_cons.1 he with rfl | he
    · exact induction_aux step p
    · exact induction_list step rest e he
termination_by structural es
end

/-- What holds of a port whenever it holds of its element ports holds of every port. -/
@[elab_as_elim]
theorem induction (p : Port) (step : ∀ p : Port, (∀ e ∈ p.elements, motive e.2) → motive p) : motive p :=
  induction_aux step p

end Induction

/-! ### The recursions, one level at a time -/

theorem idsAll_eq (es : List (String × Port)) : idsAll es = es.flatMap fun e => e.2.ids := by
  induction es with
  | nil => rfl
  | cons entry rest ih => rw [idsAll, ih, List.flatMap_cons]

theorem ids_eq (p : Port) : p.ids = p.id :: p.elements.flatMap fun e => e.2.ids := by
  obtain ⟨id, name, direction, kind, dataType, data, version, lastRead, elements⟩ := p
  rw [ids, idsAll_eq]

theorem flattenAll_eq (es : List (String × Port)) : flattenAll es = es.flatMap fun e => e.2.flatten := by
  induction es with
  | nil => rfl
  | cons entry rest ih => rw [flattenAll, ih, List.flatMap_cons]

theorem flatten_eq (p : Port) : p.flatten = p :: p.elements.flatMap fun e => e.2.flatten := by
  obtain ⟨id, name, direction, kind, dataType, data, version, lastRead, elements⟩ := p
  rw [flatten, flattenAll_eq]

theorem clearAll_eq (es : List (String × Port)) : clearAll es = mapValues clear es := by
  induction es with
  | nil => rfl
  | cons entry rest ih => rw [clearAll, ih]; rfl

theorem clear_eq (p : Port) :
    p.clear = { p with data := .null, version := 0, lastRead := 0, elements := mapValues clear p.elements } := by
  obtain ⟨id, name, direction, kind, dataType, data, version, lastRead, elements⟩ := p
  rw [clear, clearAll_eq]

@[simp] theorem clear_id (p : Port) : p.clear.id = p.id := by rw [clear_eq]

@[simp] theorem clear_data (p : Port) : p.clear.data = .null := by rw [clear_eq]

@[simp] theorem clear_version (p : Port) : p.clear.version = 0 := by rw [clear_eq]

@[simp] theorem clear_lastRead (p : Port) : p.clear.lastRead = 0 := by rw [clear_eq]

@[simp] theorem clear_dataType (p : Port) : p.clear.dataType = p.dataType := by rw [clear_eq]

@[simp] theorem clear_direction (p : Port) : p.clear.direction = p.direction := by rw [clear_eq]

@[simp] theorem clear_elements (p : Port) : p.clear.elements = mapValues clear p.elements := by rw [clear_eq]

@[simp] theorem hasData_clear (p : Port) : p.clear.hasData = false := by simp [hasData, Value.isNull]

theorem ids_eq_map_flatten (p : Port) : p.ids = p.flatten.map Port.id := by
  induction p using Port.induction with
  | step p ih =>
    rw [ids_eq, flatten_eq, List.map_cons, List.map_flatMap]
    congr 1
    exact List.flatMap_congr fun e he => ih e he

theorem self_mem_flatten (p : Port) : p ∈ p.flatten := by
  rw [flatten_eq]; exact List.mem_cons_self

theorem id_mem_ids (p : Port) : p.id ∈ p.ids := by
  rw [ids_eq]; exact List.mem_cons_self

theorem mem_flatten {p q : Port} : q ∈ p.flatten ↔ q = p ∨ ∃ e ∈ p.elements, q ∈ e.2.flatten := by
  rw [flatten_eq, List.mem_cons, List.mem_flatMap]

theorem mem_ids {p : Port} {id : PortId} : id ∈ p.ids ↔ id = p.id ∨ ∃ e ∈ p.elements, id ∈ e.2.ids := by
  rw [ids_eq, List.mem_cons, List.mem_flatMap]

theorem mem_ids_iff {p : Port} {id : PortId} : id ∈ p.ids ↔ ∃ q ∈ p.flatten, q.id = id := by
  rw [ids_eq_map_flatten, List.mem_map]

theorem flatten_trans {p q r : Port} (hq : q ∈ p.flatten) (hr : r ∈ q.flatten) : r ∈ p.flatten := by
  induction p using Port.induction with
  | step p ih =>
    rcases mem_flatten.1 hq with rfl | ⟨e, he, hqe⟩
    · exact hr
    · exact mem_flatten.2 (Or.inr ⟨e, he, ih e he hqe⟩)

@[simp] theorem ids_clear (p : Port) : p.clear.ids = p.ids := by
  induction p using Port.induction with
  | step p ih =>
    rw [ids_eq, ids_eq p, clear_id, clear_elements]
    congr 1
    rw [mapValues, List.flatMap_map]
    exact List.flatMap_congr fun e he => ih e he

theorem flatten_clear (p : Port) : p.clear.flatten = p.flatten.map clear := by
  induction p using Port.induction with
  | step p ih =>
    rw [flatten_eq, flatten_eq p, List.map_cons, List.map_flatMap, clear_elements]
    congr 1
    rw [mapValues, List.flatMap_map]
    exact List.flatMap_congr fun e he => ih e he

/-! ### Properties of every port of a tree -/

/-- A property of a port and of everything below it. -/
def Every (P : Port → Prop) (p : Port) : Prop :=
  ∀ q ∈ p.flatten, P q

variable {P Q : Port → Prop} {p q : Port}

theorem every_iff : Every P p ↔ P p ∧ ∀ e ∈ p.elements, Every P e.2 := by
  unfold Every
  simp only [flatten_eq p, List.forall_mem_cons, List.forall_mem_flatMap]

theorem Every.self (h : Every P p) : P p :=
  h p (self_mem_flatten p)

theorem Every.element (h : Every P p) {e : String × Port} (he : e ∈ p.elements) : Every P e.2 :=
  (every_iff.1 h).2 e he

theorem Every.of_mem (h : Every P p) (hq : q ∈ p.flatten) : Every P q :=
  fun r hr => h r (flatten_trans hq hr)

theorem Every.imp (h : Every P p) (himp : ∀ q, P q → Q q) : Every Q p :=
  fun q hq => himp q (h q hq)

/-! ### Paths -/

@[simp] theorem atPath?_nil (p : Port) : atPath? [] p = some p := rfl

@[simp] theorem atPath?_cons (key : String) (path : List String) (p : Port) :
    atPath? (key :: path) p = (Keyed.find? key p.elements).bind (atPath? path) := rfl

theorem mem_flatten_of_atPath? {path : List String} (h : atPath? path p = some q) : q ∈ p.flatten := by
  induction path generalizing p with
  | nil => cases h; exact self_mem_flatten _
  | cons key path ih =>
    obtain ⟨c, hc, hq⟩ := Option.bind_eq_some_iff.1 h
    exact mem_flatten.2 (Or.inr ⟨_, mem_of_find? hc, ih hq⟩)

theorem exists_atPath?_of_mem_flatten (hp : Every (fun r => (keys r.elements).Nodup) p)
    (h : q ∈ p.flatten) : ∃ path, atPath? path p = some q := by
  induction p using Port.induction with
  | step p ih =>
    rcases mem_flatten.1 h with rfl | ⟨⟨key, c⟩, he, hq⟩
    · exact ⟨[], rfl⟩
    · obtain ⟨path, hpath⟩ := ih _ he (hp.element he) hq
      exact ⟨key :: path, by rw [atPath?_cons, find?_of_mem hp.self he]; exact hpath⟩

/-! ### Look-up by identifier -/

theorem find?_some_mem {id : PortId} (h : find? id p = some q) : q ∈ p.flatten ∧ q.id = id :=
  ⟨List.mem_of_find?_eq_some h, by simpa using List.find?_some h⟩

theorem find?_isSome {id : PortId} : (find? id p).isSome ↔ id ∈ p.ids := by
  rw [find?, List.find?_isSome, mem_ids_iff]
  simp

theorem find?_eq_some_iff {id : PortId} (hp : p.ids.Nodup) :
    find? id p = some q ↔ q ∈ p.flatten ∧ q.id = id := by
  refine ⟨find?_some_mem, fun ⟨hq, hid⟩ => ?_⟩
  obtain ⟨r, hr⟩ := Option.isSome_iff_exists.1 (find?_isSome.2 (mem_ids_iff.2 ⟨q, hq, hid⟩))
  obtain ⟨hmem, hrid⟩ := find?_some_mem hr
  rw [ids_eq_map_flatten] at hp
  rw [hr, List.inj_on_of_nodup_map hp hmem hq (hrid.trans hid.symm)]

/-- In a tree with distinct identifiers, that of a port is not found below the port. -/
theorem id_notMem_ids (hp : p.ids.Nodup) {e : String × Port} (he : e ∈ p.elements) : p.id ∉ e.2.ids := fun h => by
  rw [ids_eq] at hp
  exact (List.nodup_cons.1 hp).1 (List.mem_flatMap.2 ⟨e, he, h⟩)

@[simp] theorem hasId_iff {id : PortId} : hasId id p = true ↔ id ∈ p.ids := by
  simp [hasId]

end Dataflow.Port
