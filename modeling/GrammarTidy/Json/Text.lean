namespace GrammarTidy.Json

/-! The contents of a JSON string. An escape can name half of a surrogate pair
on its own, which is well-formed JSON and yet no text, so the pieces of a string
are kept apart from the text they stand for. -/

inductive Piece where
  /-- A character, written as itself or by a short escape. -/
  | char (char : Char)
  /-- A code unit, written as four hexadecimal digits. -/
  | unit (code : Nat)
deriving DecidableEq, Repr

abbrev Text := List Piece

def isHighSurrogate (code : Nat) : Bool := 0xD800 ≤ code && code < 0xDC00

def isLowSurrogate (code : Nat) : Bool := 0xDC00 ≤ code && code < 0xE000

def ofSurrogates (high low : Nat) : Char :=
  Char.ofNat (0x10000 + (high - 0xD800) * 0x400 + (low - 0xDC00))

namespace Text

def ofString (text : String) : Text := text.toList.map .char

/-- The characters that the pieces stand for. Half of a surrogate pair on its own
stands for none. -/
def characters? : Text → Option (List Char)
  | [] => some []
  | .char char :: rest => (characters? rest).map (char :: ·)
  | .unit code :: rest =>
      if isHighSurrogate code then
        match rest with
        | .unit low :: later =>
            if isLowSurrogate low then
              (characters? later).map (ofSurrogates code low :: ·)
            else
              none
        | _ => none
      else if isLowSurrogate code then
        none
      else
        (characters? rest).map (Char.ofNat code :: ·)

def toString? (text : Text) : Option String :=
  text.characters?.map String.ofList

private theorem characters?_map_char (characters : List Char) :
    characters? (characters.map .char) = some characters := by
  induction characters with
  | nil => rfl
  | cons char rest induction => simp [characters?, induction]

@[simp] theorem toString?_ofString (text : String) :
    (ofString text).toString? = some text := by
  simp [toString?, ofString, characters?_map_char]

/-! ## Escapes

Hexadecimal digits are written in lower case and read in either. -/

def hexDigit (value : Nat) : Char :=
  if value < 10 then Char.ofNat ('0'.toNat + value) else Char.ofNat ('a'.toNat + (value - 10))

def hexValue? (char : Char) : Option Nat :=
  if '0' ≤ char && char ≤ '9' then some (char.toNat - '0'.toNat)
  else if 'a' ≤ char && char ≤ 'f' then some (char.toNat - 'a'.toNat + 10)
  else if 'A' ≤ char && char ≤ 'F' then some (char.toNat - 'A'.toNat + 10)
  else none

def unit? (first second third fourth : Char) : Option Nat := do
  let first ← hexValue? first
  let second ← hexValue? second
  let third ← hexValue? third
  let fourth ← hexValue? fourth
  return ((first * 16 + second) * 16 + third) * 16 + fourth

def shortEscape? : Char → Option Char
  | '\x22' => some '\x22'
  | '\x5c' => some '\x5c'
  | '/' => some '/'
  | 'b' => some '\x08'
  | 'f' => some '\x0c'
  | 'n' => some '\n'
  | 'r' => some '\r'
  | 't' => some '\t'
  | _ => none

def unitLexeme (code : Nat) : List Char :=
  ['\x5c', 'u', hexDigit (code / 4096 % 16), hexDigit (code / 256 % 16),
    hexDigit (code / 16 % 16), hexDigit (code % 16)]

/-- How a piece is written: a character as itself, unless it has to be escaped,
and then by the short escape if there is one. -/
def pieceLexeme : Piece → List Char
  | .char '\x22' => ['\x5c', '\x22']
  | .char '\x5c' => ['\x5c', '\x5c']
  | .char '\x08' => ['\x5c', 'b']
  | .char '\x0c' => ['\x5c', 'f']
  | .char '\n' => ['\x5c', 'n']
  | .char '\r' => ['\x5c', 'r']
  | .char '\t' => ['\x5c', 't']
  | .char char => if char.toNat < 0x20 then unitLexeme char.toNat else [char]
  | .unit code => unitLexeme code

def lexeme (text : Text) : List Char :=
  '\x22' :: text.flatMap pieceLexeme ++ ['\x22']

/-- Read the rest of a string after its opening quotation mark, up to and with
the closing one. A control character must be escaped. -/
def read? : List Char → Option (Text × List Char)
  | [] => none
  | '\x22' :: rest => some ([], rest)
  | '\x5c' :: 'u' :: first :: second :: third :: fourth :: rest => do
      let code ← unit? first second third fourth
      let (text, rest) ← read? rest
      return (.unit code :: text, rest)
  | '\x5c' :: escape :: rest => do
      let char ← shortEscape? escape
      let (text, rest) ← read? rest
      return (.char char :: text, rest)
  | char :: rest =>
      if char = '\x5c' || char.toNat < 0x20 then
        none
      else do
        let (text, rest) ← read? rest
        return (.char char :: text, rest)

theorem length_of_read? {chars rest : List Char} {text : Text}
    (found : read? chars = some (text, rest)) : rest.length < chars.length := by
  fun_induction read? chars generalizing text rest with
  | case1 => simp at found
  | case2 => simp_all
  | case3 first second third fourth later induction =>
      simp only [bind, Option.bind_eq_some_iff, pure, Option.some.injEq, Prod.mk.injEq] at found
      obtain ⟨code, _, ⟨inner, after⟩, more, _, rfl⟩ := found
      have shorter := induction more
      simp only [List.length_cons]
      omega
  | case4 escape later _ induction =>
      simp only [bind, Option.bind_eq_some_iff, pure, Option.some.injEq, Prod.mk.injEq] at found
      obtain ⟨char, _, ⟨inner, after⟩, more, _, rfl⟩ := found
      have shorter := induction more
      simp only [List.length_cons]
      omega
  | case5 => simp at found
  | case6 char later _ _ _ _ induction =>
      simp only [bind, Option.bind_eq_some_iff, pure, Option.some.injEq, Prod.mk.injEq] at found
      obtain ⟨⟨inner, after⟩, more, _, rfl⟩ := found
      have shorter := induction more
      simp only [List.length_cons]
      omega

end Text

end GrammarTidy.Json
