import GrammarTidy.Json.Token

namespace GrammarTidy.Json

/-! JSON values, as trees and as token sequences. -/

/-- A JSON value. The members of an object keep their order, and a name may
occur more than once. -/
inductive Value where
  | null
  | bool (value : Bool)
  | number (numeral : Numeral)
  | text (pieces : Text)
  | array (items : List Value)
  | object (members : List (Text × Value))
deriving Repr

namespace Value

/-! ## Writing

The tokens of the items of an array are those without its brackets, and likewise
for the members of an object. -/

mutual

def tokens : Value → List Token
  | .null => [.null]
  | .bool value => [.bool value]
  | .number numeral => [.number numeral]
  | .text pieces => [.text pieces]
  | .array items => .beginArray :: itemTokens items ++ [.endArray]
  | .object members => .beginObject :: memberTokens members ++ [.endObject]

def itemTokens : List Value → List Token
  | [] => []
  | [item] => item.tokens
  | item :: rest => item.tokens ++ .valueSeparator :: itemTokens rest

def memberTokens : List (Text × Value) → List Token
  | [] => []
  | [(name, value)] => .text name :: .nameSeparator :: value.tokens
  | (name, value) :: rest =>
      .text name :: .nameSeparator :: value.tokens ++ .valueSeparator :: memberTokens rest

end

def compact (value : Value) : List Char :=
  value.tokens.flatMap Token.lexeme

/-! ## Reading

Tokens are read one by one. The arrays and objects that are still open around
the present token are kept on a stack, innermost first, with what came before the
present item or member. Between two tokens one thing must come next: a value, the
first item or the first name of what has just begun, or its end, the name of a
further member, or the separator after a name; or a value is complete, and what
encloses it goes on or ends. -/

inductive Enclosing where
  | array (before : List Value)
  | object (before : List (Text × Value)) (name : Text)
deriving Repr

inductive Progress where
  | value (stack : List Enclosing)
  | firstItem (stack : List Enclosing)
  | firstName (stack : List Enclosing)
  | name (before : List (Text × Value)) (stack : List Enclosing)
  | separator (before : List (Text × Value)) (name : Text) (stack : List Enclosing)
  | complete (value : Value) (stack : List Enclosing)
deriving Repr

def beginValue (stack : List Enclosing) : Token → Option Progress
  | .null => some (.complete .null stack)
  | .bool value => some (.complete (.bool value) stack)
  | .number numeral => some (.complete (.number numeral) stack)
  | .text pieces => some (.complete (.text pieces) stack)
  | .beginArray => some (.firstItem stack)
  | .beginObject => some (.firstName stack)
  | _ => none

def advance : Progress → Token → Option Progress
  | .value stack, token => beginValue stack token
  | .firstItem stack, .endArray => some (.complete (.array []) stack)
  | .firstItem stack, token => beginValue (.array [] :: stack) token
  | .firstName stack, .endObject => some (.complete (.object []) stack)
  | .firstName stack, .text name => some (.separator [] name stack)
  | .name before stack, .text name => some (.separator before name stack)
  | .separator before name stack, .nameSeparator => some (.value (.object before name :: stack))
  | .complete item (.array before :: stack), .valueSeparator =>
      some (.value (.array (before ++ [item]) :: stack))
  | .complete item (.array before :: stack), .endArray =>
      some (.complete (.array (before ++ [item])) stack)
  | .complete value (.object before name :: stack), .valueSeparator =>
      some (.name (before ++ [(name, value)]) stack)
  | .complete value (.object before name :: stack), .endObject =>
      some (.complete (.object (before ++ [(name, value)])) stack)
  | _, _ => none

/-- The value of a token sequence, if it is the tokens of exactly one value. -/
def ofTokens? (tokens : List Token) : Option Value :=
  match tokens.foldlM advance (.value []) with
  | some (.complete value []) => some value
  | _ => none

def parse? (chars : List Char) : Option Value :=
  Token.readAll? chars >>= ofTokens?

/-- A comma needs a value after it. -/
example : ofTokens? [.beginArray, .null, .valueSeparator, .endArray] = none := rfl

end Value

end GrammarTidy.Json
