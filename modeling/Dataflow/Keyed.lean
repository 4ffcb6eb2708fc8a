/-!
# Lists keyed by name

Named things are kept as lists of pairs in ascending order of their keys, each key once. Strings are
compared code point by code point, which is also the order of their bytes in UTF-8.

* `Keyed.find?` looks a key up;
* `Keyed.insert` writes under a key, replacing what was there;
* `Keyed.erase` removes a key;
* `Keyed.ofList` writes the pairs of a list one after the other, so that the last one of a key stays;
* `Keyed.Ascending` says that the keys are in strictly ascending order.
-/

namespace Dataflow

/-- A list of named things. -/
abbrev Keyed (α : Type) := List (String × α)

namespace Keyed

variable {α β : Type}

/-- What is kept under `key`. -/
def find? (key : String) : Keyed α → Option α
  | [] => none
  | (k, a) :: rest => if k = key then some a else find? key rest

/-- Put `a` under `key`, at its place in the order, replacing what was there. -/
def insert (key : String) (a : α) : Keyed α → Keyed α
  | [] => [(key, a)]
  | (k, b) :: rest =>
    if k = key then (key, a) :: rest
    else if key < k then (key, a) :: (k, b) :: rest
    else (k, b) :: insert key a rest

/-- Remove `key`. -/
def erase (key : String) : Keyed α → Keyed α
  | [] => []
  | (k, b) :: rest => if k = key then rest else (k, b) :: erase key rest

/-- The keys, in ascending order. -/
def keys (entries : Keyed α) : List String :=
  entries.map Prod.fst

/-- The things kept, in ascending order of their keys. -/
def values (entries : Keyed α) : List α :=
  entries.map Prod.snd

/-- Whether something is kept under `key`. -/
def contains (key : String) (entries : Keyed α) : Bool :=
  (find? key entries).isSome

/-- Write the given pairs one after the other. -/
def ofList (pairs : List (String × α)) : Keyed α :=
  pairs.foldl (fun entries pair => insert pair.1 pair.2 entries) []

/-- Change everything kept, leaving the keys alone. -/
def mapValues (f : α → β) (entries : Keyed α) : Keyed β :=
  entries.map fun entry => (entry.1, f entry.2)

/-- The keys are in strictly ascending order. -/
def Ascending (entries : Keyed α) : Prop :=
  (keys entries).Pairwise (· < ·)

@[simp] theorem find?_nil (key : String) : find? key ([] : Keyed α) = none := rfl

@[simp] theorem find?_cons (key k : String) (a : α) (rest : Keyed α) :
    find? key ((k, a) :: rest) = if k = key then some a else find? key rest := rfl

@[simp] theorem find?_insert_self (key : String) (a : α) (entries : Keyed α) :
    find? key (insert key a entries) = some a := by
  induction entries with
  | nil => simp [insert]
  | cons entry rest ih =>
    obtain ⟨k, b⟩ := entry
    by_cases h : k = key
    · simp [insert, h]
    · by_cases h' : key < k <;> simp [insert, h, h', ih]

theorem find?_insert_of_ne {key other : String} (h : key ≠ other) (a : α) (entries : Keyed α) :
    find? other (insert key a entries) = find? other entries := by
  induction entries with
  | nil => simp [insert, h]
  | cons entry rest ih =>
    obtain ⟨k, b⟩ := entry
    by_cases hk : k = key
    · subst hk; simp [insert, h]
    · by_cases h' : key < k <;> simp [insert, hk, h', h, ih]

end Keyed

end Dataflow
