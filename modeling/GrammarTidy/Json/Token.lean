import GrammarTidy.Json.Decimal
import GrammarTidy.Json.Text

namespace GrammarTidy.Json

/-! The tokens of a JSON text, and how they are written. Between tokens stand
blanks, which mean nothing. -/

/-! ## Numerals -/

/-- A number as it is written, so that a number that is too large or too fine to
be held is still well-formed. -/
structure Numeral where
  negative : Bool
  /-- The digits before the point. -/
  whole : List Char
  /-- The point and the exponent with their digits, if there are any. -/
  tail : List Char
deriving DecidableEq, Repr

namespace Numeral

def ofInt (number : Int) : Numeral :=
  { negative := number < 0, whole := Decimal.digits number.natAbs, tail := [] }

/-- The integer that a numeral stands for. A numeral with a point or an exponent
stands for none, and neither does minus zero. -/
def toInt? (numeral : Numeral) : Option Int :=
  if !numeral.tail.isEmpty then none
  else
    let magnitude := Decimal.value numeral.whole
    if !numeral.negative then some magnitude
    else if magnitude = 0 then none
    else some (-(magnitude : Int))

@[simp] theorem toInt?_ofInt (number : Int) : (ofInt number).toInt? = some number := by
  unfold toInt? ofInt
  simp only [List.isEmpty_nil, Bool.not_true, Bool.false_eq_true, ↓reduceIte,
    Decimal.value_digits]
  by_cases negative : number < 0
  · have nonzero : number.natAbs ≠ 0 := by omega
    have magnitude : -(number.natAbs : Int) = number := by omega
    simp only [negative, decide_true, Bool.not_true, Bool.false_eq_true, ↓reduceIte, nonzero,
      magnitude]
  · have magnitude : (number.natAbs : Int) = number := by omega
    simp only [negative, decide_false, Bool.not_false, ↓reduceIte, magnitude]

def lexeme (numeral : Numeral) : List Char :=
  (if numeral.negative then ['-'] else []) ++ numeral.whole ++ numeral.tail

/-! A part of a number is split off the front of a text. There is at least one digit
before the point, behind it and in the exponent, and no leading zero. -/

def digits? (chars : List Char) : Option (List Char × List Char) :=
  match chars.takeWhile Char.isDigit with
  | [] => none
  | digits => some (digits, chars.dropWhile Char.isDigit)

def whole? (chars : List Char) : Option (List Char × List Char) :=
  match digits? chars with
  | some ('0' :: _ :: _, _) => none
  | found => found

def fraction? : List Char → Option (List Char × List Char)
  | '.' :: rest => (digits? rest).map fun (digits, rest) => ('.' :: digits, rest)
  | chars => some ([], chars)

def exponentSign : List Char → List Char × List Char
  | '+' :: rest => (['+'], rest)
  | '-' :: rest => (['-'], rest)
  | chars => ([], chars)

def exponent? : List Char → Option (List Char × List Char)
  | [] => some ([], [])
  | mark :: rest =>
      if mark = 'e' || mark = 'E' then
        (digits? (exponentSign rest).2).map fun (digits, later) =>
          (mark :: (exponentSign rest).1 ++ digits, later)
      else
        some ([], mark :: rest)

def readUnsigned? (negative : Bool) (chars : List Char) : Option (Numeral × List Char) := do
  let (whole, rest) ← whole? chars
  let (fraction, rest) ← fraction? rest
  let (exponent, rest) ← exponent? rest
  return ({ negative, whole, tail := fraction ++ exponent }, rest)

def read? : List Char → Option (Numeral × List Char)
  | '-' :: rest => readUnsigned? true rest
  | chars => readUnsigned? false chars

/-! Every token takes characters off the front of a text, so that reading all of
them comes to an end. -/

private theorem length_of_digits? {chars digits rest : List Char}
    (found : digits? chars = some (digits, rest)) : rest.length < chars.length := by
  have whole : (chars.takeWhile Char.isDigit).length + (chars.dropWhile Char.isDigit).length =
      chars.length := by
    rw [← List.length_append, List.takeWhile_append_dropWhile]
  unfold digits? at found
  split at found
  · simp at found
  · next some_digits nonempty =>
      have positive := List.length_pos_iff.mpr nonempty
      simp only [Option.some.injEq, Prod.mk.injEq] at found
      rw [← found.2]
      omega

private theorem length_of_whole? {chars whole rest : List Char}
    (found : whole? chars = some (whole, rest)) : rest.length < chars.length := by
  unfold whole? at found
  split at found
  · simp at found
  · exact length_of_digits? found

private theorem length_of_fraction? {chars fraction rest : List Char}
    (found : fraction? chars = some (fraction, rest)) : rest.length ≤ chars.length := by
  unfold fraction? at found
  split at found
  · next later =>
      obtain ⟨⟨digits, after⟩, read, same⟩ := Option.map_eq_some_iff.mp found
      have shorter := length_of_digits? read
      simp only [Prod.mk.injEq] at same
      rw [← same.2, List.length_cons]
      omega
  · simp_all

private theorem length_exponentSign (chars : List Char) :
    (exponentSign chars).2.length ≤ chars.length := by
  unfold exponentSign
  split <;> simp

private theorem length_of_exponent? {chars exponent rest : List Char}
    (found : exponent? chars = some (exponent, rest)) : rest.length ≤ chars.length := by
  unfold exponent? at found
  split at found
  · simp_all
  · next mark later =>
      split at found
      · obtain ⟨⟨digits, after⟩, read, same⟩ := Option.map_eq_some_iff.mp found
        have shorter := length_of_digits? read
        have unsigned := length_exponentSign later
        simp only [Prod.mk.injEq] at same
        rw [← same.2, List.length_cons]
        omega
      · simp_all

private theorem length_of_readUnsigned? {negative : Bool} {chars rest : List Char}
    {numeral : Numeral}
    (found : readUnsigned? negative chars = some (numeral, rest)) :
    rest.length < chars.length := by
  simp only [readUnsigned?, bind, Option.bind_eq_some_iff, pure, Option.some.injEq,
    Prod.mk.injEq] at found
  obtain ⟨⟨whole, afterWhole⟩, readWhole, ⟨fraction, afterFraction⟩, readFraction,
    ⟨exponent, afterExponent⟩, readExponent, _, rfl⟩ := found
  have first := length_of_whole? readWhole
  have second := length_of_fraction? readFraction
  have third := length_of_exponent? readExponent
  dsimp only at second third ⊢
  omega

theorem length_of_read? {chars rest : List Char} {numeral : Numeral}
    (found : read? chars = some (numeral, rest)) : rest.length < chars.length := by
  unfold read? at found
  split at found
  · have shorter := length_of_readUnsigned? found
    rw [List.length_cons]
    omega
  · exact length_of_readUnsigned? found

end Numeral

/-! ## Tokens -/

inductive Token where
  | beginArray
  | endArray
  | beginObject
  | endObject
  | nameSeparator
  | valueSeparator
  | null
  | bool (value : Bool)
  | number (numeral : Numeral)
  | text (pieces : Text)
deriving DecidableEq, Repr

def isBlank (char : Char) : Bool :=
  char = ' ' || char = '\t' || char = '\n' || char = '\r'

namespace Token

def lexeme : Token → List Char
  | .beginArray => ['[']
  | .endArray => [']']
  | .beginObject => ['\x7b']
  | .endObject => ['\x7d']
  | .nameSeparator => [':']
  | .valueSeparator => [',']
  | .null => ['n', 'u', 'l', 'l']
  | .bool true => ['t', 'r', 'u', 'e']
  | .bool false => ['f', 'a', 'l', 's', 'e']
  | .number numeral => numeral.lexeme
  | .text pieces => pieces.lexeme

def read? : List Char → Option (Token × List Char)
  | '[' :: rest => some (.beginArray, rest)
  | ']' :: rest => some (.endArray, rest)
  | '\x7b' :: rest => some (.beginObject, rest)
  | '\x7d' :: rest => some (.endObject, rest)
  | ':' :: rest => some (.nameSeparator, rest)
  | ',' :: rest => some (.valueSeparator, rest)
  | 'n' :: 'u' :: 'l' :: 'l' :: rest => some (.null, rest)
  | 't' :: 'r' :: 'u' :: 'e' :: rest => some (.bool true, rest)
  | 'f' :: 'a' :: 'l' :: 's' :: 'e' :: rest => some (.bool false, rest)
  | '\x22' :: rest => (Text.read? rest).map fun (pieces, rest) => (.text pieces, rest)
  | chars => (Numeral.read? chars).map fun (numeral, rest) => (.number numeral, rest)

theorem length_of_read? {chars rest : List Char} {token : Token}
    (found : read? chars = some (token, rest)) : rest.length < chars.length := by
  unfold read? at found
  split at found
  case h_10 =>
      obtain ⟨⟨pieces, after⟩, read, same⟩ := Option.map_eq_some_iff.mp found
      have shorter := Text.length_of_read? read
      simp only [Prod.mk.injEq] at same
      rw [← same.2, List.length_cons]
      omega
  case h_11 =>
      obtain ⟨⟨numeral, after⟩, read, same⟩ := Option.map_eq_some_iff.mp found
      have shorter := Numeral.length_of_read? read
      simp only [Prod.mk.injEq] at same
      rw [← same.2]
      exact shorter
  all_goals
    simp only [Option.some.injEq, Prod.mk.injEq] at found
    rw [← found.2]
    simp only [List.length_cons]
    omega

def readAll? (chars : List Char) : Option (List Token) :=
  match _trimmed : chars.dropWhile isBlank with
  | [] => some []
  | char :: later =>
      match _found : read? (char :: later) with
      | none => none
      | some (token, rest) => (readAll? rest).map (token :: ·)
termination_by chars.length
decreasing_by
  have shorter := length_of_read? _found
  have blanks := (List.dropWhile_sublist isBlank (l := chars)).length_le
  rw [_trimmed] at blanks
  omega

end Token

end GrammarTidy.Json
