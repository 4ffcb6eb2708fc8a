/-!
# Tables

A table keeps one entry for each of its keys, in the order in which the keys were first entered.

* `Table.find?` looks a key up, `Table.set` writes under it, `Table.erase` removes it;
* `insertNew` adds an element to a list that holds each element once.
-/

namespace Dataflow

/-- A table from `κ` to `α`. -/
abbrev Table (κ α : Type) := List (κ × α)

namespace Table

variable {κ α : Type} [DecidableEq κ]

/-- What is entered under `key`. -/
def find? (key : κ) : Table κ α → Option α
  | [] => none
  | (k, a) :: rest => if k = key then some a else find? key rest

/-- Enter `a` under `key`: in the place of what was there, or at the end. -/
def set (key : κ) (a : α) : Table κ α → Table κ α
  | [] => [(key, a)]
  | (k, b) :: rest => if k = key then (key, a) :: rest else (k, b) :: set key a rest

/-- Remove `key`. -/
def erase (key : κ) : Table κ α → Table κ α
  | [] => []
  | (k, b) :: rest => if k = key then erase key rest else (k, b) :: erase key rest

/-- Whether something is entered under `key`. -/
def contains (key : κ) (table : Table κ α) : Bool :=
  (find? key table).isSome

@[simp] theorem find?_nil (key : κ) : find? key ([] : Table κ α) = none := rfl

@[simp] theorem find?_cons (key k : κ) (a : α) (rest : Table κ α) :
    find? key ((k, a) :: rest) = if k = key then some a else find? key rest := rfl

@[simp] theorem find?_set_self (key : κ) (a : α) (table : Table κ α) :
    find? key (set key a table) = some a := by
  induction table with
  | nil => simp [set]
  | cons entry rest ih =>
    obtain ⟨k, b⟩ := entry
    by_cases h : k = key <;> simp [set, h, ih]

theorem find?_set_of_ne {key other : κ} (h : key ≠ other) (a : α) (table : Table κ α) :
    find? other (set key a table) = find? other table := by
  induction table with
  | nil => simp [set, h]
  | cons entry rest ih =>
    obtain ⟨k, b⟩ := entry
    by_cases hk : k = key
    · subst hk; simp [set, h]
    · simp [set, hk, ih]

@[simp] theorem find?_erase_self (key : κ) (table : Table κ α) :
    find? key (erase key table) = none := by
  induction table with
  | nil => rfl
  | cons entry rest ih =>
    obtain ⟨k, b⟩ := entry
    by_cases h : k = key <;> simp [erase, h, ih]

theorem find?_erase_of_ne {key other : κ} (h : key ≠ other) (table : Table κ α) :
    find? other (erase key table) = find? other table := by
  induction table with
  | nil => rfl
  | cons entry rest ih =>
    obtain ⟨k, b⟩ := entry
    by_cases hk : k = key
    · subst hk; simp [erase, h, ih]
    · simp [erase, hk, ih]

end Table

/-- Add an element at the end of a list, unless it is there already. -/
def insertNew {α : Type} [DecidableEq α] (a : α) (list : List α) : List α :=
  if a ∈ list then list else list ++ [a]

end Dataflow
