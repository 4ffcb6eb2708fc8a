import Dataflow.Codec
import Dataflow.Proofs.Basic
import Dataflow.Proofs.Json.Layouts

/-!
# Reading what was written as an object

A writer leaves fields out, and the reader gives these their own values.

* `Record.present` are the members for those fields that are there; `Record.read_present`: all of them are gathered, and
  `Record.required_present`, `Record.defaulted_present` read them one by one;
  `Record.exact_present` and `Record.depth_lt_of_mem_fields` say what the tree is like;
* `Codec.list_map`, `Codec.keyed_mapValues`: lists and named things are read back if all of their parts are;
* `Json.membersExact_iff`, `Json.depth_lt_of_mem`: what holds of the parts of a tree.
-/

namespace Dataflow

open Keyed

/-! ### The parts of a tree -/

namespace Json

theorem itemsExact_iff {js : List Json} : ItemsExact js ↔ ∀ j ∈ js, j.Exact := by
  induction js with
  | nil => simp [ItemsExact]
  | cons j js ih => rw [ItemsExact, ih, List.forall_mem_cons]

theorem membersExact_iff {js : List (String × Json)} : MembersExact js ↔ ∀ e ∈ js, e.2.Exact := by
  induction js with
  | nil => simp [MembersExact]
  | cons e js ih => rw [MembersExact, ih, List.forall_mem_cons]

theorem depth_le_itemsDepth {js : List Json} {j : Json} (h : j ∈ js) : j.depth ≤ itemsDepth js := by
  induction js with
  | nil => exact absurd h List.not_mem_nil
  | cons j' js ih =>
    rcases List.mem_cons.1 h with rfl | h
    · exact le_max_left _ _
    · exact (ih h).trans (le_max_right _ _)

theorem depth_le_membersDepth {js : List (String × Json)} {e : String × Json} (h : e ∈ js) :
    e.2.depth ≤ membersDepth js := by
  induction js with
  | nil => exact absurd h List.not_mem_nil
  | cons e' js ih =>
    rcases List.mem_cons.1 h with rfl | h
    · exact le_max_left _ _
    · exact (ih h).trans (le_max_right _ _)

/-- An item nests less than its array. -/
theorem depth_lt_of_mem_items {js : List Json} {j : Json} (h : j ∈ js) : j.depth < (array js).depth :=
  Nat.lt_succ_of_le (depth_le_itemsDepth h)

/-- The tree of a member nests less than the object. -/
theorem depth_lt_of_mem {js : List (String × Json)} {e : String × Json} (h : e ∈ js) :
    e.2.depth < (object js).depth :=
  Nat.lt_succ_of_le (depth_le_membersDepth h)

end Json

/-! ### Fields -/

namespace Record

/-- The members for the fields that are there. -/
def present (fields : List (String × Option Json)) : List (String × Json) :=
  fields.filterMap fun field => field.2.map (field.1, ·)

theorem present_cons_some (name : String) (j : Json) (rest : List (String × Option Json)) :
    present ((name, some j) :: rest) = (name, j) :: present rest := rfl

theorem present_cons_none (name : String) (rest : List (String × Option Json)) :
    present ((name, none) :: rest) = present rest := rfl

theorem mem_present {fields : List (String × Option Json)} {name : String} {j : Json} :
    (name, j) ∈ present fields ↔ (name, some j) ∈ fields := by
  rw [present, List.mem_filterMap]
  constructor
  · rintro ⟨⟨name', o⟩, hmem, h⟩
    obtain ⟨j', rfl, heq⟩ := Option.map_eq_some_iff.1 h
    cases heq
    exact hmem
  · exact fun h => ⟨_, h, rfl⟩

/-- An object is exact if the fields that are there are. -/
theorem exact_present {fields : List (String × Option Json)} (h : ∀ field ∈ fields, ∀ j ∈ field.2, j.Exact) :
    (Json.object (present fields)).Exact :=
  Json.membersExact_iff.2 fun e he => h (e.1, some e.2) (mem_present.1 he) e.2 rfl

/-- The tree of a field nests less than the object. -/
theorem depth_lt_of_mem_fields {fields : List (String × Option Json)} {name : String} {j : Json}
    (h : (name, some j) ∈ fields) : j.depth < (Json.object (present fields)).depth :=
  Json.depth_lt_of_mem (mem_present.2 h)

theorem keys_present_sublist (fields : List (String × Option Json)) : (keys (present fields)).Sublist (keys fields) := by
  induction fields with
  | nil => exact List.Sublist.refl _
  | cons field rest ih =>
    obtain ⟨name, o⟩ := field
    cases o with
    | none => exact ih.cons _
    | some j => exact ih.cons_cons _

theorem find?_present {fields : List (String × Option Json)} (h : (keys fields).Nodup) (name : String) :
    find? name (present fields) = (find? name fields).join := by
  induction fields with
  | nil => rfl
  | cons field rest ih =>
    obtain ⟨name', o⟩ := field
    obtain ⟨hnew, hrest⟩ := List.nodup_cons.1 h
    have hnone : find? name' (present rest) = none := find?_eq_none.2 fun hm => hnew ((keys_present_sublist rest).subset hm)
    cases o with
    | none =>
      rw [present_cons_none, find?_cons, ih hrest]
      split_ifs with heq
      · subst heq
        rw [← ih hrest, hnone]
        rfl
      · rfl
    | some j =>
      rw [present_cons_some, find?_cons, find?_cons, ih hrest]
      split_ifs <;> rfl

/-- Members with different names that are asked for are all gathered. -/
theorem gather_eq {names : List String} {members : List (String × Json)} (hn : (keys members).Nodup)
    (hsub : keys members ⊆ names) : gather names members = .ok members := by
  induction members with
  | nil => rfl
  | cons member rest ih =>
    obtain ⟨name, j⟩ := member
    obtain ⟨hnew, hrest⟩ := List.nodup_cons.1 hn
    have hname : names.contains name = true := List.contains_iff_mem.2 (hsub List.mem_cons_self)
    have hnone : Keyed.contains name rest = false := by
      rw [Keyed.contains, find?_eq_none.2 hnew]
      rfl
    rw [gather, ih hrest fun _ hm => hsub (List.mem_cons_of_mem _ hm)]
    change (if names.contains name then if Keyed.contains name rest then _ else _ else _) = _
    rw [if_pos hname, hnone]
    rfl

section Fields

variable {α : Type} {fields : List (String × Option Json)} {names : List String} (hnames : keys fields = names)
  (hn : names.Nodup)
include hnames hn

/-- **The fields that were written are all found.** -/
theorem read_present : read names (.object (present fields)) = .ok ⟨false, present fields⟩ := by
  have hsub := keys_present_sublist fields
  rw [read, gather_eq ((hnames ▸ hn).sublist hsub) (hnames ▸ hsub.subset)]
  rfl

theorem required_present (name : String) {j : Json} (h : find? name fields = some (some j))
    (decode : Json → Except Fault α) : required ⟨false, present fields⟩ name decode = decode j := by
  rw [required, find?_present (hnames ▸ hn), h]
  rfl

theorem defaulted_present (name : String) {o : Option Json} (h : find? name fields = some o) (default : α)
    (decode : Json → Except Fault α) :
    defaulted ⟨false, present fields⟩ name default decode = o.elim (.ok default) decode := by
  rw [defaulted, find?_present (hnames ▸ hn), h]
  cases o <;> rfl

end Fields

end Record

/-! ### Lists and named things -/

namespace Codec

variable {α : Type} {decode : Json → Except Fault α} {encode : α → Json}

theorem mapM_map {β : Type} {f : β → Except Fault α} {g : α → β} {as : List α} (h : ∀ a ∈ as, f (g a) = .ok a) :
    (as.map g).mapM f = .ok as := by
  induction as with
  | nil => rfl
  | cons a as ih =>
    obtain ⟨ha, has⟩ := List.forall_mem_cons.1 h
    rw [List.map_cons, List.mapM_cons, ha, ih has]
    rfl

/-- A list is read back if its items are. -/
theorem list_map {as : List α} (h : ∀ a ∈ as, decode (encode a) = .ok a) :
    list decode (.array (as.map encode)) = .ok as :=
  mapM_map h

/-- Named things are read back if each of them is. -/
theorem keyed_mapValues {entries : Keyed α} (ha : Ascending entries) (h : ∀ e ∈ entries, decode (encode e.2) = .ok e.2) :
    keyed decode (.object (mapValues encode entries)) = .ok entries := by
  have hentries : (mapValues encode entries).mapM (fun member => do
      let a ← decode member.2
      return (member.1, a)) = .ok entries := by
    refine mapM_map fun e he => ?_
    rw [h e he]
    rfl
  rw [keyed, hentries]
  exact congrArg Except.ok (ofList_of_ascending ha)

end Codec

end Dataflow
