/-!
# Lines and parts of a text

* `split` cuts a text at a separator; `split_ne_nil` says that there is always at least one part;
* `lines` cuts it at its line feeds;
* `indent` puts something in front of the first line and something else in front of the others.
-/

namespace Dataflow.Text

/-- Put a character in front of the first of some parts. -/
def pushToFirst (c : Char) : List (List Char) → List (List Char)
  | [] => [[c]]
  | part :: rest => (c :: part) :: rest

/-- The parts of a text between the places where a separator stands. -/
def split (separator : Char) : List Char → List (List Char)
  | [] => [[]]
  | c :: rest =>
    if c = separator then [] :: split separator rest else pushToFirst c (split separator rest)

@[simp] theorem pushToFirst_ne_nil (c : Char) (parts : List (List Char)) : pushToFirst c parts ≠ [] := by
  cases parts <;> simp [pushToFirst]

theorem split_ne_nil (separator : Char) (text : List Char) : split separator text ≠ [] := by
  cases text with
  | nil => simp [split]
  | cons c rest => by_cases h : c = separator <;> simp [split, h]

/-- The lines of a text, without the line feeds between them. -/
def lines (text : String) : List String :=
  (split '\n' text.toList).map String.ofList

/-- The lines of a text, with `first` in front of the first one and `others` in front of the others. -/
def indent (first others : String) (text : String) : List String :=
  match lines text with
  | [] => []
  | line :: rest => (first ++ line) :: rest.map (others ++ ·)

end Dataflow.Text
