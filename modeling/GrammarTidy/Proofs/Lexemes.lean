import GrammarTidy.Json.Token
import Mathlib.Data.List.Chain
import Mathlib.Data.List.TakeWhile

/-! What is written reads back: the pieces of a string, numerals, tokens, and
sequences of tokens. A string can be written in many ways, and blanks may stand
around every token. All of that reads back, and so does what the writer makes of it. -/

namespace GrammarTidy.Json

/-! ## Strings -/

/-- A piece that is written so that it is read as itself. A control character
without a short escape is written as a code unit, and read as one. -/
def Piece.Legible : Piece → Prop
  | .char symbol => symbol.toNat < 0x20 → symbol ∈ ['\x08', '\x0c', '\n', '\r', '\t']
  | .unit code => code < 0x10000

inductive Piece.Spelled : Piece → List Char → Prop
  | plain {symbol : Char} (printable : 0x20 ≤ symbol.toNat) (notQuote : symbol ≠ '\x22')
      (notBackslash : symbol ≠ '\x5c') : Spelled (.char symbol) [symbol]
  | short {escape symbol : Char} (known : Text.shortEscape? escape = some symbol) :
      Spelled (.char symbol) ['\x5c', escape]
  | unit {first second third fourth : Char} {code : Nat}
      (digits : Text.unit? first second third fourth = some code) :
      Spelled (.unit code) ['\x5c', 'u', first, second, third, fourth]

namespace Text

private theorem hexValue?_hexDigit {value : Nat} (small : value < 16) :
    hexValue? (hexDigit value) = some value := by
  have all : ∀ each : Fin 16, hexValue? (hexDigit each.val) = some each.val := by decide
  exact all ⟨value, small⟩

private theorem unit?_of_lt {code : Nat} (small : code < 0x10000) :
    unit? (hexDigit (code / 4096 % 16)) (hexDigit (code / 256 % 16))
      (hexDigit (code / 16 % 16)) (hexDigit (code % 16)) = some code := by
  have digit : ∀ value, hexValue? (hexDigit (value % 16)) = some (value % 16) := fun value =>
    hexValue?_hexDigit (Nat.mod_lt _ (by decide))
  have joined : ((code / 4096 % 16 * 16 + code / 256 % 16) * 16 + code / 16 % 16) * 16 +
      code % 16 = code := by omega
  simp [unit?, digit, joined]

private theorem spelled_pieceLexeme {piece : Piece} (legible : piece.Legible) :
    piece.Spelled (pieceLexeme piece) := by
  unfold pieceLexeme
  split
  case h_8 symbol notQuote notBackslash _ _ _ _ _ =>
    have printable : ¬symbol.toNat < 0x20 := by
      intro control
      have named := legible control
      simp_all
    rw [if_neg printable]
    exact .plain (Nat.le_of_not_lt printable) notQuote notBackslash
  case h_9 code => exact .unit (unit?_of_lt legible)
  all_goals exact .short rfl

private theorem read?_piece {piece : Piece} {written : List Char} (spelled : piece.Spelled written)
    (chars : List Char) :
    read? (written ++ chars) = (read? chars).map fun (text, rest) => (piece :: text, rest) := by
  rw [Option.map_eq_bind]
  cases spelled with
  | plain printable notQuote notBackslash =>
      rename_i symbol
      have goesOn : (decide (symbol = '\x5c') || decide (symbol.toNat < 0x20)) = false := by
        simpa using ⟨notBackslash, printable⟩
      rw [List.singleton_append, read?, goesOn]
      · rfl
      all_goals simp_all
  | short known =>
      unfold shortEscape? at known
      split at known <;> cases known <;> rfl
  | unit digits =>
      simp only [List.cons_append, List.nil_append, read?, digits]
      rfl

private theorem read?_pieces {text : Text} {written : List (List Char)}
    (spelled : List.Forall₂ Piece.Spelled text written) (chars : List Char) :
    read? (written.flatten ++ '\x22' :: chars) = some (text, chars) := by
  induction spelled with
  | nil => rfl
  | cons first _ induction =>
      rw [List.flatten_cons, List.append_assoc, read?_piece first, induction]
      rfl

end Text

/-! ## Numerals -/

namespace Numeral

def IsDigits (chars : List Char) : Prop :=
  chars ≠ [] ∧ ∀ char ∈ chars, char.isDigit = true

def IsFraction (chars : List Char) : Prop :=
  chars = [] ∨ ∃ digits, IsDigits digits ∧ chars = '.' :: digits

def IsExponent (chars : List Char) : Prop :=
  chars = [] ∨ ∃ mark sign digits, (mark = 'e' ∨ mark = 'E') ∧
    (sign = [] ∨ sign = ['+'] ∨ sign = ['-']) ∧ IsDigits digits ∧
    chars = mark :: (sign ++ digits)

/-- A numeral as the grammar of numbers has it. -/
structure Legible (numeral : Numeral) : Prop where
  digits : IsDigits numeral.whole
  noLeadingZero : numeral.whole.head? = some '0' → numeral.whole = ['0']
  tail : ∃ fraction exponent, IsFraction fraction ∧ IsExponent exponent ∧
    numeral.tail = fraction ++ exponent

/-- A character that would go on a numeral in front of it. -/
def goesOn (char : Char) : Bool :=
  char.isDigit || char = '.' || char = 'e' || char = 'E'

/-- What comes first, if anything does, fails a test. -/
def Stops (test : Char → Bool) (chars : List Char) : Prop :=
  ∀ char ∈ chars.head?, test char = false

theorem Stops.mono {strong weak : Char → Bool} {chars : List Char} (stops : Stops weak chars)
    (implies : ∀ char, strong char = true → weak char = true) : Stops strong chars := by
  intro char first
  have fails := stops char first
  cases passes : strong char with
  | false => rfl
  | true => exact absurd (implies char passes) (by simp [fails])

theorem digits?_append {digits chars : List Char} (isDigits : IsDigits digits)
    (stops : Stops Char.isDigit chars) :
    digits? (digits ++ chars) = some (digits, chars) := by
  have rest : chars.takeWhile Char.isDigit = [] ∧ chars.dropWhile Char.isDigit = chars := by
    cases chars with
    | nil => exact ⟨rfl, rfl⟩
    | cons char chars =>
        have fails : char.isDigit = false := stops char rfl
        simp [fails]
  rw [digits?, List.takeWhile_append_of_pos isDigits.2, List.dropWhile_append_of_pos isDigits.2,
    rest.1, rest.2, List.append_nil]
  cases digits with
  | nil => exact absurd rfl isDigits.1
  | cons digit digits => rfl

private theorem whole?_append {whole chars : List Char} (isDigits : IsDigits whole)
    (noLeadingZero : whole.head? = some '0' → whole = ['0']) (stops : Stops Char.isDigit chars) :
    whole? (whole ++ chars) = some (whole, chars) := by
  rw [whole?, digits?_append isDigits stops]
  split
  · next found =>
      cases found
      cases noLeadingZero rfl
  · rfl

private theorem fraction?_append {fraction chars : List Char} (isFraction : IsFraction fraction)
    (stops : Stops (fun char => char.isDigit || char = '.') chars) :
    fraction? (fraction ++ chars) = some (fraction, chars) := by
  rcases isFraction with rfl | ⟨digits, isDigits, rfl⟩
  · rw [List.nil_append, fraction?]
    rintro rest rfl
    cases stops '.' rfl
  · have endsDigits : Stops Char.isDigit chars := stops.mono fun char digit => by simp [digit]
    rw [List.cons_append, fraction?, digits?_append isDigits endsDigits]
    rfl

private theorem exponentSign_append {sign digits chars : List Char}
    (isSign : sign = [] ∨ sign = ['+'] ∨ sign = ['-']) (isDigits : IsDigits digits) :
    exponentSign (sign ++ digits ++ chars) = (sign, digits ++ chars) := by
  rcases isSign with rfl | rfl | rfl
  · cases digits with
    | nil => exact absurd rfl isDigits.1
    | cons digit digits =>
        have first := isDigits.2 digit List.mem_cons_self
        rw [List.nil_append, List.cons_append, exponentSign]
        all_goals
          rintro rest equal
          cases equal
          cases first
  · rfl
  · rfl

private theorem exponent?_append {exponent chars : List Char} (isExponent : IsExponent exponent)
    (stops : Stops goesOn chars) :
    exponent? (exponent ++ chars) = some (exponent, chars) := by
  rcases isExponent with rfl | ⟨mark, sign, digits, isMark, isSign, isDigits, rfl⟩
  · cases chars with
    | nil => rfl
    | cons char chars =>
        have fails : goesOn char = false := stops char rfl
        simp only [goesOn, Bool.or_eq_false_iff, decide_eq_false_iff_not] at fails
        simp [exponent?, fails]
  · have endsDigits : Stops Char.isDigit chars :=
      stops.mono fun char digit => by simp [goesOn, digit]
    have marks : (decide (mark = 'e') || decide (mark = 'E')) = true := by simpa using isMark
    rw [List.cons_append, exponent?, marks, exponentSign_append isSign isDigits,
      digits?_append isDigits endsDigits]
    rfl

private theorem stops_tail {exponent chars : List Char} (isExponent : IsExponent exponent)
    (stops : Stops goesOn chars) :
    Stops (fun char => char.isDigit || char = '.') (exponent ++ chars) := by
  rcases isExponent with rfl | ⟨mark, sign, digits, isMark, -, -, rfl⟩
  · exact stops.mono fun char passes => by simp_all [goesOn]
  · rintro char first
    cases first
    rcases isMark with rfl | rfl <;> rfl

private theorem stops_fraction {fraction chars : List Char} (isFraction : IsFraction fraction)
    (stops : Stops (fun char => char.isDigit || char = '.') chars) :
    Stops Char.isDigit (fraction ++ chars) := by
  rcases isFraction with rfl | ⟨digits, -, rfl⟩
  · exact stops.mono fun char digit => by simp [digit]
  · rintro char first
    cases first
    rfl

private theorem readUnsigned?_append {numeral : Numeral} (legible : numeral.Legible)
    {chars : List Char}
    (stops : Stops goesOn chars) :
    readUnsigned? numeral.negative (numeral.whole ++ (numeral.tail ++ chars)) =
      some (numeral, chars) := by
  rcases legible.tail with ⟨fraction, exponent, isFraction, isExponent, tail⟩
  have afterFraction := stops_tail isExponent stops
  have afterWhole := stops_fraction isFraction afterFraction
  rw [readUnsigned?, tail, List.append_assoc,
    whole?_append legible.digits legible.noLeadingZero afterWhole]
  simp only [Option.bind_eq_bind, Option.bind_some, fraction?_append isFraction afterFraction,
    exponent?_append isExponent stops, ← tail]
  rfl

theorem Legible.exists_cons {numeral : Numeral} (legible : numeral.Legible) :
    ∃ digit digits, digit.isDigit = true ∧ numeral.whole = digit :: digits := by
  rcases List.exists_cons_of_ne_nil legible.digits.1 with ⟨digit, digits, whole⟩
  exact ⟨digit, digits, legible.digits.2 digit (whole ▸ List.mem_cons_self), whole⟩

theorem read?_lexeme {numeral : Numeral} (legible : numeral.Legible) {chars : List Char}
    (stops : Stops goesOn chars) : read? (numeral.lexeme ++ chars) = some (numeral, chars) := by
  have unsigned := readUnsigned?_append legible stops
  rw [lexeme, List.append_assoc, List.append_assoc]
  cases negative : numeral.negative with
  | true =>
      rw [negative] at unsigned
      exact unsigned
  | false =>
      rw [negative] at unsigned
      rw [if_neg Bool.false_ne_true, List.nil_append, read?, unsigned]
      intro rest signed
      rcases legible.exists_cons with ⟨digit, digits, isDigit, whole⟩
      rw [whole] at signed
      cases signed
      cases isDigit

theorem Legible.lexeme_cons {numeral : Numeral} (legible : numeral.Legible) :
    ∃ first rest, (first = '-' ∨ first.isDigit = true) ∧ numeral.lexeme = first :: rest := by
  rcases legible.exists_cons with ⟨digit, digits, isDigit, whole⟩
  rw [lexeme, whole]
  cases numeral.negative with
  | true => exact ⟨_, _, .inl rfl, rfl⟩
  | false => exact ⟨_, _, .inr isDigit, rfl⟩

theorem isDigits_digits (number : Nat) : IsDigits (Decimal.digits number) := by
  refine ⟨?_, fun char => Decimal.isDigit_of_mem_digits⟩
  rw [Decimal.digits]
  split <;> simp

private theorem digits_of_zero {number : Nat} (zero : (Decimal.digits number).head? = some '0') :
    Decimal.digits number = ['0'] := by
  induction number using Nat.strongRecOn with
  | ind number induction =>
      rw [Decimal.digits] at zero ⊢
      split at zero
      · next small =>
          rw [if_pos small]
          exact congrArg (· :: []) (Option.some.inj zero)
      · next large =>
          exfalso
          rw [List.head?_append_of_ne_nil _ (isDigits_digits _).1] at zero
          have front := congrArg Decimal.value (induction (number / 10) (by omega) zero)
          rw [Decimal.value_digits] at front
          have none : number / 10 = 0 := front
          omega

theorem legible_ofInt (number : Int) : (ofInt number).Legible where
  digits := isDigits_digits _
  noLeadingZero := digits_of_zero
  tail := ⟨[], [], .inl rfl, .inl rfl, rfl⟩

end Numeral

/-! ## Tokens -/

namespace Token

def Legible : Token → Prop
  | .number numeral => numeral.Legible
  | .text pieces => ∀ piece ∈ pieces, piece.Legible
  | _ => True

/-- The characters after a token that leave it as it is. Only a numeral can be
gone on with. -/
def Ends : Token → List Char → Prop
  | .number _, chars => Numeral.Stops Numeral.goesOn chars
  | _, _ => True

private theorem read?_of_numeral {first : Char} {rest : List Char}
    (numeral : first = '-' ∨ first.isDigit = true) :
    read? (first :: rest) =
      (Numeral.read? (first :: rest)).map fun (numeral, rest) => (.number numeral, rest) := by
  rw [read?]
  all_goals
    intros
    simp_all

/-- The ways to write a token. Only a string can be written in more than one. -/
def Spelled : Token → List Char → Prop
  | .text pieces, chars => ∃ written, List.Forall₂ Piece.Spelled pieces written ∧
      chars = '\x22' :: written.flatten ++ ['\x22']
  | .number numeral, chars => numeral.Legible ∧ chars = numeral.lexeme
  | token, chars => chars = token.lexeme

theorem Legible.spelled {token : Token} (legible : token.Legible) :
    token.Spelled token.lexeme := by
  cases token with
  | number numeral => exact ⟨legible, rfl⟩
  | text pieces =>
      refine ⟨pieces.map Text.pieceLexeme, ?_, rfl⟩
      rw [List.forall₂_map_right_iff, List.forall₂_same]
      exact fun piece member => Text.spelled_pieceLexeme (legible piece member)
  | _ => rfl

variable {token : Token} {written chars : List Char}

theorem read?_append (spelled : token.Spelled written) (ends : token.Ends chars) :
    read? (written ++ chars) = some (token, chars) := by
  cases token with
  | number numeral =>
      rcases spelled with ⟨legible, rfl⟩
      rcases Numeral.Legible.lexeme_cons legible with ⟨first, rest, starts, lexeme⟩
      have found := Numeral.read?_lexeme legible ends
      rw [lexeme, List.cons_append] at found ⊢
      rw [read?_of_numeral starts, found]
      rfl
  | text pieces =>
      rcases spelled with ⟨written, spelled, rfl⟩
      have found := Text.read?_pieces spelled chars
      rw [List.cons_append, List.cons_append, List.append_assoc, List.singleton_append, read?,
        found]
      rfl
  | bool value =>
      cases spelled
      cases value <;> rfl
  | _ =>
      cases spelled
      rfl

private theorem Spelled.exists_cons (spelled : token.Spelled written) :
    ∃ first rest, written = first :: rest ∧ isBlank first = false := by
  cases token with
  | number numeral =>
      rcases spelled with ⟨legible, rfl⟩
      rcases Numeral.Legible.lexeme_cons legible with ⟨first, rest, starts, lexeme⟩
      refine ⟨first, rest, lexeme, Bool.eq_false_iff.mpr fun blank => ?_⟩
      simp only [isBlank, Bool.or_eq_true, decide_eq_true_eq] at blank
      rcases blank with ((rfl | rfl) | rfl) | rfl <;> simp at starts
  | text pieces =>
      rcases spelled with ⟨written, -, rfl⟩
      exact ⟨_, _, rfl, rfl⟩
  | bool value =>
      cases spelled
      cases value <;> exact ⟨_, _, rfl, rfl⟩
  | _ =>
      cases spelled
      exact ⟨_, _, rfl, rfl⟩

/-! ### Sequences of tokens -/

private theorem readAll?_of_read? {first : Char} {later rest : List Char}
    (trimmed : chars.dropWhile isBlank = first :: later)
    (found : read? (first :: later) = some (token, rest)) :
    readAll? chars = (readAll? rest).map (token :: ·) := by
  rw [readAll?]
  split
  · next empty =>
      rw [trimmed] at empty
      cases empty
  · next char after same =>
      rw [trimmed] at same
      cases same
      split
      · next absent =>
          rw [found] at absent
          cases absent
      · next other left read =>
          rw [found] at read
          cases read
          rfl

def AllBlank (chars : List Char) : Prop := ∀ char ∈ chars, isBlank char = true

private theorem dropWhile_blanks {blanks : List Char} (blank : AllBlank blanks) {first : Char}
    (solid : isBlank first = false) (rest : List Char) :
    (blanks ++ first :: rest).dropWhile isBlank = first :: rest := by
  rw [List.dropWhile_append_of_pos blank]
  exact List.dropWhile_cons_of_neg (by simp [solid])

private theorem readAll?_of_allBlank (blank : AllBlank chars) : readAll? chars = some [] := by
  rw [readAll?]
  split
  · rfl
  · next char after trimmed =>
      rw [List.dropWhile_eq_nil_iff.mpr blank] at trimmed
      cases trimmed

/-- Tokens, each in one of its spellings, with blanks around them. -/
inductive Spaced : List Token → List Char → Prop
  | nil {blanks : List Char} (blank : AllBlank blanks) : Spaced [] blanks
  | cons {token : Token} {tokens : List Token} {blanks written chars : List Char}
      (blank : AllBlank blanks) (spelled : token.Spelled written) (rest : Spaced tokens chars) :
      Spaced (token :: tokens) (blanks ++ (written ++ chars))

theorem spaced_lexemes {tokens : List Token} (legible : ∀ token ∈ tokens, token.Legible) :
    Spaced tokens (tokens.flatMap lexeme) := by
  induction tokens with
  | nil => exact .nil nofun
  | cons token rest induction =>
      rw [List.forall_mem_cons] at legible
      have none : AllBlank [] := nofun
      exact .cons none legible.1.spelled (induction legible.2)

def Parts (first second : Token) : Prop :=
  ∀ chars, first.Ends (second.lexeme ++ chars)

theorem ends_of_stops (stops : Numeral.Stops Numeral.goesOn chars) : token.Ends chars := by
  cases token with
  | number numeral => exact stops
  | _ => trivial

theorem Ends.append {blanks : List Char} (blank : AllBlank blanks) (ends : token.Ends chars) :
    token.Ends (blanks ++ chars) := by
  cases blanks with
  | nil => exact ends
  | cons char blanks =>
      apply ends_of_stops
      intro first same
      cases same
      have isBlank := blank char List.mem_cons_self
      simp only [Json.isBlank, Bool.or_eq_true, decide_eq_true_eq] at isBlank
      rcases isBlank with ((rfl | rfl) | rfl) | rfl <;> rfl

theorem Parts.ends {first : Token} (parts : first.Parts token) (spelled : token.Spelled written)
    (chars : List Char) : first.Ends (written ++ chars) := by
  cases token with
  | text pieces =>
      rcases spelled with ⟨written, -, rfl⟩
      apply ends_of_stops
      rintro _ ⟨⟩
      rfl
  | number numeral =>
      rcases spelled with ⟨-, rfl⟩
      exact parts chars
  | _ =>
      cases spelled
      exact parts chars

theorem Spaced.ends {tokens : List Token} (spaced : Spaced tokens chars)
    (parted : (token :: tokens).IsChain Parts) : token.Ends chars := by
  cases spaced with
  | nil blank =>
      rw [← List.append_nil chars]
      exact Ends.append blank (ends_of_stops nofun)
  | cons blank spelled rest =>
      exact Ends.append blank ((List.isChain_cons_cons.mp parted).1.ends spelled _)

/-- Tokens that do not run together read back, in whatever spelling. -/
theorem readAll?_of_spaced {tokens : List Token} (spaced : Spaced tokens chars)
    (parted : tokens.IsChain Parts) : readAll? chars = some tokens := by
  induction spaced with
  | nil blank => exact readAll?_of_allBlank blank
  | cons blank spelled rest induction =>
      have found := read?_append spelled (rest.ends parted)
      rcases spelled.exists_cons with ⟨first, later, rfl, solid⟩
      rw [List.cons_append] at found ⊢
      rw [readAll?_of_read? (dropWhile_blanks blank solid _) found, induction parted.tail]
      rfl

end Token

end GrammarTidy.Json
