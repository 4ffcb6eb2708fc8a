import Dataflow.Json.Reader
import Dataflow.Json.Writer
import Dataflow.Proofs.Port.Elements

/-!
# Strings and integers in JSON

What the writer makes of a string or of an integer is read back, whatever follows it.

* `Json.readString_escaped`: the content of a string and the quote after it;
* `Json.Ends` says that a text does not go on with a number;
* `Json.Numeral.read_signed`, `Json.Numeral.value_signed`: an integer that fits 64 bits, signed or not.
-/

namespace Dataflow

open Text

namespace Json

/-! ### Strings -/

/-- The piece that a character of a string is read as: a control character without a short escape is written by its
number. -/
def pieceOf (c : Char) : Piece :=
  if c.toNat < 0x20 ∧ c ∉ ['\x08', '\x0c', '\n', '\r', '\t'] then .unit c.toNat else .char c

theorem hexUnit?_hexDigit : ∀ n < 0x20, hexUnit? '0' '0' (hexDigit (n / 16)) (hexDigit (n % 16)) = some n := by
  decide

/-- What is written for a character is read as its piece. -/
theorem readPieces_escaped (c : Char) (text : List Char) :
    readPieces (escaped c ++ text) = (pieceOf c).push (readPieces text) := by
  unfold escaped
  split
  -- the characters with a short escape
  iterate 7 rfl
  -- all others, of which the control characters are written by their numbers
  rename_i hquote hbackslash hb hf hn hr ht
  split_ifs with hcontrol
  · have hpiece : pieceOf c = .unit c.toNat := if_pos ⟨hcontrol, by simp_all⟩
    rw [hpiece]
    simp only [List.cons_append, List.nil_append]
    rw [readPieces, hexUnit?_hexDigit _ hcontrol]
  · have hpiece : pieceOf c = .char c := if_neg fun h => hcontrol h.1
    rw [hpiece, List.singleton_append, readPieces.eq_def]
    split <;> simp_all

theorem readPieces_flatMap (cs : List Char) (rest : List Char) :
    readPieces (cs.flatMap escaped ++ '"' :: rest) = .ok (cs.map pieceOf, rest) := by
  induction cs with
  | nil => rfl
  | cons c cs ih =>
    rw [List.flatMap_cons, List.append_assoc, readPieces_escaped, ih]
    rfl

/-- A unit that is half of no surrogate pair stands for a character, whatever follows it. -/
theorem join?_unit {code : Nat} (hhigh : isHighSurrogate code = false) (hlow : isLowSurrogate code = false)
    (pieces : List Piece) : join? (.unit code :: pieces) = (join? pieces).map (Char.ofNat code :: ·) := by
  cases pieces with
  | nil => simp [join?, hhigh, hlow]
  | cons piece rest => cases piece <;> simp [join?, hhigh, hlow]

theorem join?_pieceOf (c : Char) (pieces : List Piece) : join? (pieceOf c :: pieces) = (join? pieces).map (c :: ·) := by
  unfold pieceOf
  split_ifs with h
  · have hhigh : isHighSurrogate c.toNat = false := by simp [isHighSurrogate]; omega
    have hlow : isLowSurrogate c.toNat = false := by simp [isLowSurrogate]; omega
    rw [join?_unit hhigh hlow, Char.ofNat_toNat]
  · rfl

theorem join?_map_pieceOf (cs : List Char) : join? (cs.map pieceOf) = some cs := by
  induction cs with
  | nil => rfl
  | cons c cs ih => rw [List.map_cons, join?_pieceOf, ih, Option.map_some]

/-- **A string is read back.** -/
theorem readString_escaped (text : String) (rest : List Char) :
    readString (text.toList.flatMap escaped ++ '"' :: rest) = .ok (some text, rest) := by
  rw [readString, readPieces_flatMap]
  simp only [Except.map, join?_map_pieceOf, Option.map_some, String.ofList_toList]

/-! ### Integers -/

/-- A text does not go on with a number. -/
def Ends (text : List Char) : Prop :=
  ∀ c ∈ text.head?, isDigit c = false ∧ c ≠ '.' ∧ c ≠ 'e' ∧ c ≠ 'E'

theorem ends_nil : Ends [] := fun _ hc => absurd hc (by simp)

theorem ends_cons {c : Char} {rest : List Char} (hdigit : isDigit c = false) (hpoint : c ≠ '.') (hsmall : c ≠ 'e')
    (hlarge : c ≠ 'E') : Ends (c :: rest) := by
  intro c' hc'
  obtain rfl : c = c' := by simpa using hc'
  exact ⟨hdigit, hpoint, hsmall, hlarge⟩

/-- A number begins with a digit. -/
theorem decimal_eq_digit_cons (n : Nat) : ∃ c cs, decimal n = c :: cs ∧ isDigit c = true := by
  obtain ⟨c, cs, hcs⟩ := List.exists_cons_of_ne_nil (Nat.toDigits_ne_nil (n := n) (b := 10))
  exact ⟨c, cs, hcs, isDigit_of_mem_decimal (n := n) (by rw [decimal, hcs]; exact List.mem_cons_self)⟩

/-- A positive number has no zero in front. -/
theorem decimal_eq_cons {n : Nat} (hn : 0 < n) : ∃ c cs, decimal n = c :: cs ∧ c ≠ '0' := by
  induction n using Nat.strong_induction_on with
  | _ n ih =>
    rw [decimal, Nat.toDigits_eq_if (by decide)]
    split_ifs with h
    · refine ⟨_, _, rfl, ?_⟩
      interval_cases n <;> decide
    · obtain ⟨c, cs, hcs, hc⟩ := ih (n / 10) (Nat.div_lt_self hn (by decide)) (by omega)
      exact ⟨c, cs ++ [(n % 10).digitChar], by rw [← decimal, hcs, List.cons_append], hc⟩

namespace Numeral

theorem readDigits_decimal (n : Nat) {rest : List Char} (h : Ends rest) :
    readDigits (decimal n ++ rest) = (decimal n, rest) := by
  have hall : ∀ c ∈ decimal n, isDigit c = true := fun _ => isDigit_of_mem_decimal
  have hrest : rest.takeWhile isDigit = [] ∧ rest.dropWhile isDigit = rest := by
    cases rest with
    | nil => exact ⟨rfl, rfl⟩
    | cons c rest =>
      have hc : isDigit c = false := (h c rfl).1
      simp [hc]
  rw [readDigits, List.takeWhile_append_of_pos hall, List.dropWhile_append_of_pos hall, hrest.1, hrest.2,
    List.append_nil]

theorem readWhole_decimal (n : Nat) {rest : List Char} (h : Ends rest) :
    readWhole (decimal n ++ rest) = .ok (decimal n, rest) := by
  rcases Nat.eq_zero_or_pos n with rfl | hn
  · rfl
  · obtain ⟨c, cs, hcs, hc⟩ := decimal_eq_cons hn
    have hsome : readSome (decimal n ++ rest) = .ok (decimal n, rest) := by
      rw [readSome, readDigits_decimal n h, hcs]
      rfl
    rw [← hsome, hcs, List.cons_append, readWhole.eq_def]
    split
    · rename_i heq
      exact absurd (List.cons.inj heq).1 hc
    · rfl

theorem readFraction_ends {rest : List Char} (h : Ends rest) : readFraction rest = .ok ([], rest) := by
  unfold readFraction
  split
  · exact absurd rfl (h '.' rfl).2.1
  · rfl

theorem readExponent_ends {rest : List Char} (h : Ends rest) : readExponent rest = .ok (none, rest) := by
  cases rest with
  | nil => rfl
  | cons c rest =>
    obtain ⟨-, -, hsmall, hlarge⟩ := h c rfl
    simp [readExponent, hsmall, hlarge]

/-- The parts of an integer. -/
def ofInteger : Int → Numeral
  | .ofNat n => { negative := false, whole := decimal n, fraction := [], exponent := none }
  | .negSucc n => { negative := true, whole := decimal (n + 1), fraction := [], exponent := none }

/-- Read a number after its sign. -/
def readUnsigned (negative : Bool) (text : List Char) : Except Halt (Numeral × List Char) := do
  let (whole, rest) ← readWhole text
  let (fraction, rest) ← readFraction rest
  let (exponent, rest) ← readExponent rest
  return ({ negative, whole, fraction, exponent }, rest)

theorem read_minus (text : List Char) : read ('-' :: text) = readUnsigned true text := rfl

theorem read_cons {c : Char} (hc : c ≠ '-') (text : List Char) : read (c :: text) = readUnsigned false (c :: text) := by
  unfold read
  split
  rename_i hsign
  split at hsign
  · rename_i heq
    exact absurd (List.cons.inj heq).1 hc
  · cases hsign
    rfl

theorem readUnsigned_decimal (negative : Bool) (n : Nat) {rest : List Char} (h : Ends rest) :
    readUnsigned negative (decimal n ++ rest) = .ok (⟨negative, decimal n, [], none⟩, rest) := by
  simp only [readUnsigned, readWhole_decimal n h, readFraction_ends h, readExponent_ends h, bind, Except.bind, pure,
    Except.pure]

/-- An integer is read with all of its digits. -/
theorem read_signed (i : Int) {rest : List Char} (h : Ends rest) : read (signed i ++ rest) = .ok (ofInteger i, rest) := by
  cases i with
  | ofNat n =>
    -- a digit is no minus
    obtain ⟨c, cs, hcs, hdigit⟩ := decimal_eq_digit_cons n
    have hc : c ≠ '-' := by
      rintro rfl
      exact absurd hdigit (by decide)
    rw [signed, ofInteger, ← readUnsigned_decimal false n h, hcs, List.cons_append, read_cons hc]
  | negSucc n => rw [signed, List.cons_append, read_minus, readUnsigned_decimal true (n + 1) h, ofInteger]

/-- **An integer that fits 64 bits, signed or not, is read back.** -/
theorem value_ofInteger {i : Int} (hmin : -2 ^ 63 ≤ i) (hmax : i < 2 ^ 64) : (ofInteger i).value = .integer i := by
  cases i with
  | ofNat n =>
    have hn : n < wordLimit := by
      change (n : Int) < 2 ^ 64 at hmax
      change n < 18446744073709551616
      omega
    simp [ofInteger, value, hn]
  | negSucc n =>
    have hn : 0 < n + 1 ∧ n + 1 ≤ Nat.pow 2 63 := by
      rw [Int.negSucc_eq] at hmin
      change _ ∧ n + 1 ≤ 9223372036854775808
      omega
    simp only [ofInteger, value, digitsValue_decimal, hn]
    simp [Int.negSucc_eq]

end Numeral

end Json

end Dataflow
