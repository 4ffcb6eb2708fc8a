import Dataflow.Proofs.Json.Tokens

/-!
# Trees in JSON

The compact and the pretty text of a tree differ in their blank space, and the reader passes over blank space.

* `Json.Layout` says where blank space is put, `Json.laidOut` writes a tree in a layout; `Json.compact_eq` and
  `Json.pretty_eq`: both writers do that;
* `Json.Exact` holds of trees without numbers other than integers of 64 bits, and in which everything denotes
  something; `Json.depth` is the number of containers that are nested;
* `Json.readValue_laidOut`: in every layout, such a tree is read back if it does not nest too deeply;
* `Json.read_compact`, `Json.read_pretty`: so it is from both of its texts.
-/

namespace Dataflow.Json

open Text

/-! ### Layouts -/

/-- Blank space. -/
def Blank (text : List Char) : Prop :=
  ∀ c ∈ text, isSpace c = true

/-- Where the text of a tree has blank space: before whatever stands `level` containers deep, and after a colon. -/
structure Layout where
  indent : Nat → List Char
  gap : List Char
  blank_indent : ∀ level, Blank (indent level)
  blank_gap : Blank gap

mutual
/-- A tree in a layout, where `level` containers enclose it. -/
def laidOut (l : Layout) (level : Nat) : Json → List Char
  | null => ['n', 'u', 'l', 'l']
  | boolean true => ['t', 'r', 'u', 'e']
  | boolean false => ['f', 'a', 'l', 's', 'e']
  | integer i => signed i
  | number x => numberText x
  | string text => quoted text
  | array [] => ['[', ']']
  | array (j :: js) =>
    '[' :: l.indent (level + 1) ++ laidOut l (level + 1) j ++ laidItems l (level + 1) js ++ l.indent level ++ [']']
  | object [] => ['{', '}']
  | object ((key, j) :: js) =>
    '{' :: l.indent (level + 1) ++ quoted key ++ ':' :: l.gap ++ laidOut l (level + 1) j ++
      laidMembers l (level + 1) js ++ l.indent level ++ ['}']
  | unreadable _ => ['n', 'u', 'l', 'l']
termination_by structural j => j

/-- Further items, each after a comma. -/
def laidItems (l : Layout) (level : Nat) : List Json → List Char
  | [] => []
  | j :: js => ',' :: l.indent level ++ laidOut l level j ++ laidItems l level js
termination_by structural js => js

/-- Further members, each after a comma. -/
def laidMembers (l : Layout) (level : Nat) : List (String × Json) → List Char
  | [] => []
  | (key, j) :: js =>
    ',' :: l.indent level ++ quoted key ++ ':' :: l.gap ++ laidOut l level j ++ laidMembers l level js
termination_by structural js => js
end

/-- No blank space at all. -/
def Layout.tight : Layout where
  indent _ := []
  gap := []
  blank_indent _ := List.forall_mem_nil _
  blank_gap := List.forall_mem_nil _

theorem blank_newline (level : Nat) : Blank (newline level) := by
  intro c hc
  rcases List.mem_cons.1 hc with rfl | hc
  · rfl
  · rw [List.eq_of_mem_replicate hc]
    rfl

/-- A line for every item and every member. -/
def Layout.wide : Layout where
  indent := newline
  gap := [' ']
  blank_indent := blank_newline
  blank_gap := by simp [Blank, isSpace]

mutual
theorem compactWith_eq (level : Nat) (j : Json) : compactWith numberText j = laidOut .tight level j := by
  cases j with
  | boolean b => cases b <;> rfl
  | array js =>
    cases js with
    | nil => rfl
    | cons j js =>
      simp [compactWith, itemsWith, laidOut, Layout.tight, compactWith_eq (level + 1) j, itemsAfter_eq (level + 1) js]
  | object js =>
    cases js with
    | nil => rfl
    | cons member js =>
      obtain ⟨key, j⟩ := member
      simp [compactWith, membersWith, laidOut, Layout.tight, compactWith_eq (level + 1) j,
        membersAfter_eq (level + 1) js]
  | _ => rfl
termination_by structural j

theorem itemsAfter_eq (level : Nat) (js : List Json) : itemsAfter numberText js = laidItems .tight level js := by
  cases js with
  | nil => rfl
  | cons j js => simp [itemsAfter, laidItems, Layout.tight, compactWith_eq level j, itemsAfter_eq level js]
termination_by structural js

theorem membersAfter_eq (level : Nat) (js : List (String × Json)) :
    membersAfter numberText js = laidMembers .tight level js := by
  cases js with
  | nil => rfl
  | cons member js =>
    obtain ⟨key, j⟩ := member
    simp [membersAfter, laidMembers, Layout.tight, compactWith_eq level j, membersAfter_eq level js]
termination_by structural js
end

/-- The compact text of a tree is the one without blank space. -/
theorem compact_eq (j : Json) : j.compact = laidOut .tight 0 j :=
  compactWith_eq 0 j

mutual
theorem prettyAt_eq (level : Nat) (j : Json) : prettyAt level j = laidOut .wide level j := by
  cases j with
  | boolean b => cases b <;> rfl
  | array js =>
    cases js with
    | nil => rfl
    | cons j js => simp [prettyAt, laidOut, Layout.wide, prettyAt_eq (level + 1) j, prettyItems_eq (level + 1) js]
  | object js =>
    cases js with
    | nil => rfl
    | cons member js =>
      obtain ⟨key, j⟩ := member
      simp [prettyAt, laidOut, Layout.wide, prettyAt_eq (level + 1) j, prettyMembers_eq (level + 1) js]
  | _ => rfl
termination_by structural j

theorem prettyItems_eq (level : Nat) (js : List Json) : prettyItems level js = laidItems .wide level js := by
  cases js with
  | nil => rfl
  | cons j js => simp [prettyItems, laidItems, Layout.wide, prettyAt_eq level j, prettyItems_eq level js]
termination_by structural js

theorem prettyMembers_eq (level : Nat) (js : List (String × Json)) :
    prettyMembers level js = laidMembers .wide level js := by
  cases js with
  | nil => rfl
  | cons member js =>
    obtain ⟨key, j⟩ := member
    simp [prettyMembers, laidMembers, Layout.wide, prettyAt_eq level j, prettyMembers_eq level js]
termination_by structural js
end

/-- The pretty text of a tree is the one with a line for every item and every member. -/
theorem pretty_eq (j : Json) : j.pretty = laidOut .wide 0 j :=
  prettyAt_eq 0 j

/-! ### Trees that are read back -/

mutual
/-- Everything denotes something, and all numbers are integers that fit 64 bits, signed or not. -/
def Exact : Json → Prop
  | integer i => -2 ^ 63 ≤ i ∧ i < 2 ^ 64
  | array js => ItemsExact js
  | object js => MembersExact js
  | number _ | unreadable _ => False
  | _ => True
termination_by structural j => j

/-- `Exact` for every tree of a list. -/
def ItemsExact : List Json → Prop
  | [] => True
  | j :: js => Exact j ∧ ItemsExact js
termination_by structural js => js

/-- `Exact` for the tree of every member. -/
def MembersExact : List (String × Json) → Prop
  | [] => True
  | (_, j) :: js => Exact j ∧ MembersExact js
termination_by structural js => js
end

mutual
/-- How many containers are nested in a tree. -/
def depth : Json → Nat
  | array js => itemsDepth js + 1
  | object js => membersDepth js + 1
  | _ => 0
termination_by structural j => j

/-- The greatest depth of the trees of a list. -/
def itemsDepth : List Json → Nat
  | [] => 0
  | j :: js => max (depth j) (itemsDepth js)
termination_by structural js => js

/-- The greatest depth of the trees of members. -/
def membersDepth : List (String × Json) → Nat
  | [] => 0
  | (_, j) :: js => max (depth j) (membersDepth js)
termination_by structural js => js
end

/-! ### Passing over blank space -/

theorem skipSpace_blank {before : List Char} (hb : Blank before) (text : List Char) :
    skipSpace (before ++ text) = skipSpace text :=
  List.dropWhile_append_of_pos hb

theorem skipSpace_cons {c : Char} (hc : isSpace c = false) (text : List Char) : skipSpace (c :: text) = c :: text :=
  List.dropWhile_cons_of_neg (by simp [hc])

theorem skipSpace_blank_cons {before : List Char} (hb : Blank before) {c : Char} (hc : isSpace c = false)
    (text : List Char) : skipSpace (before ++ c :: text) = c :: text := by
  rw [skipSpace_blank hb, skipSpace_cons hc]

theorem readValue_blank {before : List Char} (hb : Blank before) (fuel depth : Nat) (text : List Char) :
    readValue (fuel + 1) depth (before ++ text) = readValue (fuel + 1) depth text := by
  rw [readValue, readValue, skipSpace_blank hb]

/-- Blank space goes on with no number. -/
theorem ends_blank {before : List Char} (hb : Blank before) {text : List Char} (h : Ends text) : Ends (before ++ text) := by
  cases before with
  | nil => exact h
  | cons c before =>
    have hc : isSpace c = true := hb c List.mem_cons_self
    simp only [isSpace, Bool.or_eq_true, decide_eq_true_eq] at hc
    rw [List.cons_append]
    rcases hc with ((rfl | rfl) | rfl) | rfl <;> exact ends_cons rfl (by decide) (by decide) (by decide)

/-! ### Integers as values -/

/-- Whether a number begins with a character. -/
def startsNumber (c : Char) : Bool :=
  c = '-' || isDigit c

theorem ne_of_startsNumber {c d : Char} (hc : startsNumber c = true) (hd : startsNumber d = false) : c ≠ d := by
  rintro rfl
  rw [hc] at hd
  cases hd

theorem isSpace_of_startsNumber {c : Char} (hc : startsNumber c = true) : isSpace c = false := by
  simp [isSpace, ne_of_startsNumber hc (d := ' ') rfl, ne_of_startsNumber hc (d := '\t') rfl,
    ne_of_startsNumber hc (d := '\n') rfl, ne_of_startsNumber hc (d := '\r') rfl]

theorem signed_eq_cons (i : Int) : ∃ c cs, signed i = c :: cs ∧ startsNumber c = true := by
  cases i with
  | ofNat n =>
    obtain ⟨c, cs, hcs, hdigit⟩ := decimal_eq_digit_cons n
    exact ⟨c, cs, hcs, by rw [startsNumber, hdigit, Bool.or_true]⟩
  | negSucc n => exact ⟨'-', _, rfl, rfl⟩

theorem readValue_signed {i : Int} (hmin : -2 ^ 63 ≤ i) (hmax : i < 2 ^ 64) (fuel depth : Nat) {rest : List Char}
    (h : Ends rest) : readValue (fuel + 1) depth (signed i ++ rest) = .ok (integer i, rest) := by
  obtain ⟨c, cs, hcs, hc⟩ := signed_eq_cons i
  have hread : (Numeral.read (signed i ++ rest)).map (fun e => (e.1.value, e.2)) = .ok (integer i, rest) := by
    rw [Numeral.read_signed i h, ← Numeral.value_ofInteger hmin hmax]
    rfl
  rw [hcs, List.cons_append] at hread ⊢
  rw [readValue, skipSpace_cons (isSpace_of_startsNumber hc)]
  split
  -- no other kind of value begins with this character
  case h_1 heq => exact absurd (List.cons.inj heq).1 (ne_of_startsNumber hc rfl)
  case h_2 heq => exact absurd (List.cons.inj heq).1 (ne_of_startsNumber hc rfl)
  case h_3 heq => exact absurd (List.cons.inj heq).1 (ne_of_startsNumber hc rfl)
  case h_4 heq => exact absurd (List.cons.inj heq).1 (ne_of_startsNumber hc rfl)
  case h_5 heq => exact absurd (List.cons.inj heq).1 (ne_of_startsNumber hc rfl)
  case h_6 heq => exact absurd (List.cons.inj heq).1 (ne_of_startsNumber hc rfl)
  case h_7 heq =>
    cases heq
    exact (if_pos hc).trans hread
  case h_8 heq => cases heq

/-! ### Containers -/

/-- The text of a tree that is read back begins with no blank and with no closing bracket. -/
theorem laidOut_eq_cons (l : Layout) (level : Nat) {j : Json} (hj : j.Exact) :
    ∃ c cs, laidOut l level j = c :: cs ∧ isSpace c = false ∧ c ≠ ']' := by
  cases j with
  | boolean b => cases b <;> exact ⟨_, _, rfl, rfl, by decide⟩
  | integer i =>
    obtain ⟨c, cs, hcs, hc⟩ := signed_eq_cons i
    exact ⟨c, cs, hcs, isSpace_of_startsNumber hc, ne_of_startsNumber hc rfl⟩
  | number x => exact absurd hj id
  | array js => cases js <;> exact ⟨_, _, rfl, rfl, by decide⟩
  | object js => cases js <;> exact ⟨_, _, rfl, rfl, by decide⟩
  | _ => exact ⟨_, _, rfl, rfl, by decide⟩

/-- An array with items is read item by item. -/
theorem readValue_array {fuel depth : Nat} {text rest : List Char} {c : Char} {cs : List Char} {items : List Json}
    (hskip : skipSpace text = c :: cs) (hc : c ≠ ']') (hitems : readItems fuel (depth - 1) (c :: cs) = .ok (items, rest)) :
    readValue (fuel + 1) depth ('[' :: text) = .ok (ofItems depth items, rest) := by
  rw [readValue, skipSpace_cons rfl]
  simp only [hskip]
  split
  · rename_i heq
    exact absurd (List.cons.inj heq).1 hc
  · rw [hitems]
    rfl

/-- An object with members is read member by member. -/
theorem readValue_object {fuel depth : Nat} {text rest : List Char} {c : Char} {cs : List Char} {members : Members}
    (hskip : skipSpace text = c :: cs) (hc : c ≠ '}')
    (hmembers : readMembers fuel (depth - 1) (c :: cs) = .ok (members, rest)) :
    readValue (fuel + 1) depth ('{' :: text) = .ok (ofMembers depth members, rest) := by
  rw [readValue, skipSpace_cons rfl]
  simp only [hskip]
  split
  · rename_i heq
    exact absurd (List.cons.inj heq).1 hc
  · rw [hmembers]
    rfl

section Containers

variable {l : Layout}

/-- Wherever a tree stands in a layout, with fuel for its length, it is read back. -/
def ReadsBack (l : Layout) (j : Json) : Prop :=
  ∀ (fuel depth level : Nat) {before rest : List Char}, j.depth ≤ depth → (laidOut l level j).length ≤ fuel →
    Blank before → Ends rest → readValue fuel depth (before ++ (laidOut l level j ++ rest)) = .ok (j, rest)

theorem ends_laidItems (level : Nat) (js : List Json) {closing : List Char} (hb : Blank closing) (rest : List Char) :
    Ends (laidItems l level js ++ (closing ++ ']' :: rest)) := by
  cases js with
  | nil => exact ends_blank hb (ends_cons rfl (by decide) (by decide) (by decide))
  | cons j js => exact ends_cons rfl (by decide) (by decide) (by decide)

theorem ends_laidMembers (level : Nat) (js : List (String × Json)) {closing : List Char} (hb : Blank closing)
    (rest : List Char) : Ends (laidMembers l level js ++ (closing ++ '}' :: rest)) := by
  cases js with
  | nil => exact ends_blank hb (ends_cons rfl (by decide) (by decide) (by decide))
  | cons member js => exact ends_cons rfl (by decide) (by decide) (by decide)

theorem quoted_append (text : String) (rest : List Char) :
    quoted text ++ rest = '"' :: (text.toList.flatMap escaped ++ '"' :: rest) := by
  simp [quoted]

/-- A key and the colon after it are read back. -/
theorem readKey_quoted (key : String) (rest : List Char) :
    readKey (key.toList.flatMap escaped ++ '"' :: ':' :: rest) = .ok (some key, rest) := by
  rw [readKey, readString_escaped]
  rfl

mutual
/-- **In every layout, an exact tree is read back** if it does not nest too deeply. -/
theorem readValue_laidOut (j : Json) (hj : j.Exact) : ReadsBack l j := by
  intro fuel depth level before rest hdepth hfuel hb hrest
  cases fuel with
  | zero =>
    obtain ⟨c, cs, hcs, -⟩ := laidOut_eq_cons l level hj
    simp [hcs] at hfuel
  | succ fuel =>
    rw [readValue_blank hb]
    cases j with
    | null => rfl
    | boolean b => cases b <;> rfl
    | integer i => exact readValue_signed hj.1 hj.2 fuel depth hrest
    | number x => exact absurd hj id
    | string text =>
      rw [laidOut, quoted_append, readValue, skipSpace_cons rfl]
      change (readString _).map _ = _
      rw [readString_escaped]
      rfl
    | array js =>
      rw [Json.depth] at hdepth
      have hpositive : depth ≠ 0 := by omega
      cases js with
      | nil =>
        change (Except.ok (ofItems depth [], rest) : Except Halt _) = _
        rw [ofItems, if_neg hpositive]
      | cons j js =>
        obtain ⟨hj, hjs⟩ := hj
        obtain ⟨hdepth, hdepths⟩ := max_le_iff.1 (Nat.le_sub_one_of_lt hdepth)
        have hitems := readItems_laidItems js hjs (readValue_laidOut j hj) fuel (depth - 1) (level + 1) hdepth hdepths
          (by simp [laidOut] at hfuel; omega) (List.forall_mem_nil _) (l.blank_indent level) rest
        obtain ⟨c, cs, hcs, hspace, hbracket⟩ := laidOut_eq_cons l (level + 1) hj
        rw [hcs, List.nil_append, List.cons_append] at hitems
        have htext : laidOut l level (array (j :: js)) ++ rest =
            '[' :: (l.indent (level + 1) ++ c :: (cs ++ (laidItems l (level + 1) js ++ (l.indent level ++ ']' :: rest)))) := by
          simp [laidOut, hcs]
        rw [htext, readValue_array (skipSpace_blank_cons (l.blank_indent _) hspace _) hbracket hitems,
          ofItems, if_neg hpositive]
    | object js =>
      rw [Json.depth] at hdepth
      have hpositive : depth ≠ 0 := by omega
      cases js with
      | nil =>
        change (Except.ok (ofMembers depth (some []), rest) : Except Halt _) = _
        rw [ofMembers, if_neg hpositive]
      | cons member js =>
        obtain ⟨key, j⟩ := member
        obtain ⟨hj, hjs⟩ := hj
        obtain ⟨hdepth, hdepths⟩ := max_le_iff.1 (Nat.le_sub_one_of_lt hdepth)
        have hmembers := readMembers_laidMembers js hjs key (readValue_laidOut j hj) fuel (depth - 1) (level + 1) hdepth
          hdepths (by simp [laidOut] at hfuel; omega) (List.forall_mem_nil _) (l.blank_indent level) rest
        rw [quoted_append, List.nil_append] at hmembers
        have htext : laidOut l level (object ((key, j) :: js)) ++ rest =
            '{' :: (l.indent (level + 1) ++ '"' :: (key.toList.flatMap escaped ++ '"' :: ':' ::
              (l.gap ++ (laidOut l (level + 1) j ++ (laidMembers l (level + 1) js ++ (l.indent level ++ '}' :: rest)))))) := by
          simp [laidOut, quoted]
        rw [htext, readValue_object (skipSpace_blank_cons (l.blank_indent _) rfl _) (by decide) hmembers, ofMembers,
          if_neg hpositive]
    | unreadable fault => exact absurd hj id
termination_by structural j

theorem readItems_laidItems (js : List Json) (hjs : ItemsExact js) {j : Json} (hj : ReadsBack l j) :
    ∀ (fuel depth level : Nat) {before closing : List Char}, j.depth ≤ depth → itemsDepth js ≤ depth →
      (laidOut l level j).length + (laidItems l level js).length < fuel → Blank before → Blank closing →
      ∀ rest, readItems fuel depth (before ++ (laidOut l level j ++ (laidItems l level js ++ (closing ++ ']' :: rest)))) =
        .ok (j :: js, rest) := by
  intro fuel depth level before closing hdepth hdepths hfuel hb hclosing rest
  cases fuel with
  | zero => exact absurd hfuel (Nat.not_lt_zero _)
  | succ fuel =>
    have hvalue := hj fuel depth level hdepth (by omega) hb (ends_laidItems (l := l) level js hclosing rest)
    rw [readItems]
    simp only [bind, Except.bind, hvalue]
    cases js with
    | nil =>
      have hskip : skipSpace (laidItems l level [] ++ (closing ++ ']' :: rest)) = ']' :: rest :=
        skipSpace_blank_cons hclosing rfl rest
      simp only [hskip]
      rfl
    | cons j' js =>
      obtain ⟨hj', hjs⟩ := hjs
      obtain ⟨hdepth', hdepths⟩ := max_le_iff.1 hdepths
      have hitems := readItems_laidItems js hjs (readValue_laidOut j' hj') fuel depth level hdepth' hdepths
        (by simp [laidItems] at hfuel; omega) (l.blank_indent level) hclosing rest
      have hskip : skipSpace (laidItems l level (j' :: js) ++ (closing ++ ']' :: rest)) =
          ',' :: (l.indent level ++ (laidOut l level j' ++ (laidItems l level js ++ (closing ++ ']' :: rest)))) := by
        rw [laidItems]
        simp only [List.cons_append, List.append_assoc]
        exact skipSpace_cons rfl _
      simp only [hskip, hitems]
      rfl
termination_by structural js

theorem readMembers_laidMembers (js : List (String × Json)) (hjs : MembersExact js) (key : String) {j : Json}
    (hj : ReadsBack l j) :
    ∀ (fuel depth level : Nat) {before closing : List Char}, j.depth ≤ depth → membersDepth js ≤ depth →
      (laidOut l level j).length + (laidMembers l level js).length < fuel → Blank before → Blank closing →
      ∀ rest, readMembers fuel depth (before ++ (quoted key ++ ':' ::
          (l.gap ++ (laidOut l level j ++ (laidMembers l level js ++ (closing ++ '}' :: rest)))))) =
        .ok (some ((key, j) :: js), rest) := by
  intro fuel depth level before closing hdepth hdepths hfuel hb hclosing rest
  cases fuel with
  | zero => exact absurd hfuel (Nat.not_lt_zero _)
  | succ fuel =>
    have hvalue := hj fuel depth level hdepth (by omega) l.blank_gap (ends_laidMembers (l := l) level js hclosing rest)
    rw [readMembers, skipSpace_blank hb, quoted_append, skipSpace_cons rfl]
    simp only [bind, Except.bind, readKey_quoted, hvalue]
    cases js with
    | nil =>
      have hskip : skipSpace (laidMembers l level [] ++ (closing ++ '}' :: rest)) = '}' :: rest :=
        skipSpace_blank_cons hclosing rfl rest
      simp only [hskip]
      rfl
    | cons member js =>
      obtain ⟨key', j'⟩ := member
      obtain ⟨hj', hjs⟩ := hjs
      obtain ⟨hdepth', hdepths⟩ := max_le_iff.1 hdepths
      have hmembers := readMembers_laidMembers js hjs key' (readValue_laidOut j' hj') fuel depth level hdepth' hdepths
        (by simp [laidMembers] at hfuel; omega) (l.blank_indent level) hclosing rest
      have hskip : skipSpace (laidMembers l level ((key', j') :: js) ++ (closing ++ '}' :: rest)) =
          ',' :: (l.indent level ++ (quoted key' ++ ':' ::
            (l.gap ++ (laidOut l level j' ++ (laidMembers l level js ++ (closing ++ '}' :: rest)))))) := by
        rw [laidMembers]
        simp only [List.cons_append, List.append_assoc]
        exact skipSpace_cons rfl _
      simp only [hskip, hmembers]
      rfl
termination_by structural js
end

end Containers

/-! ### Whole texts -/

/-- The text of an exact tree in a layout is read back as a whole. -/
theorem readWithin_laidOut (l : Layout) {j : Json} (hj : j.Exact) {depth : Nat} (hdepth : j.depth ≤ depth) :
    readWithin depth (laidOut l 0 j) = .ok j := by
  have hvalue := readValue_laidOut (l := l) j hj (fuelFor (laidOut l 0 j)) depth 0 hdepth (by unfold fuelFor; omega)
    (List.forall_mem_nil _) ends_nil
  rw [List.nil_append, List.append_nil] at hvalue
  rw [readWithin, hvalue]
  rfl

/-- **The compact text of an exact tree is read back.** -/
theorem read_compact {j : Json} (hj : j.Exact) (hdepth : j.depth ≤ maxDepth) : read j.compact = .ok j := by
  rw [compact_eq]
  exact readWithin_laidOut .tight hj hdepth

/-- **The pretty text of an exact tree is read back.** -/
theorem read_pretty {j : Json} (hj : j.Exact) (hdepth : j.depth ≤ maxDepth) : read j.pretty = .ok j := by
  rw [pretty_eq]
  exact readWithin_laidOut .wide hj hdepth

end Dataflow.Json
