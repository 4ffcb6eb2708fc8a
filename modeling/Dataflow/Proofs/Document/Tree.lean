import Dataflow.Document

/-!
# Documents of ports as trees

* `PortDocument.children` are the documents of the element ports, also if their list is missing;
* `PortDocument.flatten` lists a document and everything below it, `PortDocument.flatten_eq` one level at a time;
* `PortDocument.induction`: what passes from the element ports to a port holds of every document.
-/

namespace Dataflow.PortDocument

/-- The documents of the element ports. -/
def children (d : PortDocument) : List (String × PortDocument) :=
  d.elements.getD []

mutual
/-- A document and everything below it, parent first. -/
def flatten : PortDocument → List PortDocument
  | ⟨id, dataType, data, elements⟩ => ⟨id, dataType, data, elements⟩ :: flattenOptional elements
termination_by structural d => d

/-- The documents of a list that may be missing, and everything below them. -/
def flattenOptional : Option (List (String × PortDocument)) → List PortDocument
  | none => []
  | some documents => flattenAll documents
termination_by structural ds => ds

/-- The documents of a list and everything below them. -/
def flattenAll : List (String × PortDocument) → List PortDocument
  | [] => []
  | (_, d) :: rest => flatten d ++ flattenAll rest
termination_by structural ds => ds
end

theorem flattenAll_eq (ds : List (String × PortDocument)) : flattenAll ds = ds.flatMap fun e => e.2.flatten := by
  induction ds with
  | nil => rfl
  | cons entry rest ih => rw [flattenAll, ih, List.flatMap_cons]

theorem flatten_eq (d : PortDocument) : d.flatten = d :: d.children.flatMap fun e => e.2.flatten := by
  obtain ⟨id, t, v, elements⟩ := d
  rw [flatten]
  cases elements with
  | none => rfl
  | some documents => exact congrArg _ (flattenAll_eq documents)

/-- A property of a document and of everything below it. -/
theorem forall_mem_flatten {P : PortDocument → Prop} {d : PortDocument} :
    (∀ part ∈ d.flatten, P part) ↔ P d ∧ ∀ e ∈ d.children, ∀ part ∈ e.2.flatten, P part := by
  simp only [flatten_eq d, List.forall_mem_cons, List.forall_mem_flatMap]

section Induction

variable {motive : PortDocument → Prop}

mutual
theorem induction_aux (step : ∀ d : PortDocument, (∀ e ∈ d.children, motive e.2) → motive d) (d : PortDocument) :
    motive d := by
  obtain ⟨id, t, v, elements⟩ := d
  exact step _ (induction_optional step elements)
termination_by structural d

theorem induction_optional (step : ∀ d : PortDocument, (∀ e ∈ d.children, motive e.2) → motive d)
    (ds : Option (List (String × PortDocument))) : ∀ e ∈ ds.getD [], motive e.2 := by
  cases ds with
  | none => exact fun e he => absurd he List.not_mem_nil
  | some documents => exact induction_list step documents
termination_by structural ds

theorem induction_list (step : ∀ d : PortDocument, (∀ e ∈ d.children, motive e.2) → motive d)
    (ds : List (String × PortDocument)) : ∀ e ∈ ds, motive e.2 := by
  cases ds with
  | nil => exact fun e he => absurd he List.not_mem_nil
  | cons entry rest =>
    obtain ⟨key, d⟩ := entry
    intro e he
    rcases List.mem_cons.1 he with rfl | he
    · exact induction_aux step d
    · exact induction_list step rest e he
termination_by structural ds
end

/-- What holds of a document whenever it holds of those of its element ports holds of every document. -/
@[elab_as_elim]
theorem induction (d : PortDocument) (step : ∀ d : PortDocument, (∀ e ∈ d.children, motive e.2) → motive d) : motive d :=
  induction_aux step d

end Induction

end Dataflow.PortDocument
