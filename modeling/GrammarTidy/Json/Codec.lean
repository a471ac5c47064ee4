import GrammarTidy.Json.Value

namespace GrammarTidy.Json

/-! How a type is written as JSON and read back. Reading is freer than writing:
a record may come as an object, with its fields in any order and with others
among them, or as an array of its fields. -/

class Codec (α : Type) where
  encode : α → Value
  decode? : Value → Option α

def write {α : Type} [Codec α] (value : α) : String :=
  String.ofList (Codec.encode value).compact

def read? {α : Type} [Codec α] (text : String) : Option α :=
  Value.parse? text.toList >>= Codec.decode?

namespace Value

/-! ## Scalars

Integers are read into 64 bits, with or without a sign. -/

def ofString (text : String) : Value := .text (Text.ofString text)

def ofInt (number : Int) : Value := .number (Numeral.ofInt number)

def bool? : Value → Option Bool
  | .bool value => some value
  | _ => none

/-- An integer from `least` up to, and without, `bound`. -/
def int? (least bound : Int) : Value → Option Int
  | .number numeral =>
      numeral.toInt?.filter fun number => least ≤ number && number < bound
  | _ => none

def signed? (value : Value) : Option Int :=
  value.int? (-0x8000000000000000) 0x8000000000000000

def unsigned? (value : Value) : Option Nat :=
  (value.int? 0 0x10000000000000000).map Int.toNat

/-! ## Records -/

def record (fields : List (String × Value)) : Value :=
  .object (fields.map fun (name, value) => (Text.ofString name, value))

/-- The members of an object by name. Every name has to be a text, also one that
nobody asks for. -/
def named? (members : List (Text × Value)) : Option (List (String × Value)) :=
  members.mapM fun (name, value) => name.toString?.map fun text => (text, value)

/-- What a record holds in a field: nothing, or one value. A field that comes
twice is an error. -/
def field? (members : List (String × Value)) (name : String) : Option (Option Value) :=
  match members.filter fun member => member.1 = name with
  | [] => some none
  | [(_, value)] => some (some value)
  | _ => none

/-- What a record holds in the fields of the given names, in their order. An
array holds its fields by position, and must not be longer than the names. -/
def fields? (names : List String) : Value → Option (List (Option Value))
  | .object members => do
      let members ← named? members
      names.mapM (field? members)
  | .array items =>
      if items.length ≤ names.length then
        some ((List.range names.length).map fun index => items[index]?)
      else
        none
  | _ => none

/-! ## Variants -/

/-- Which of several variants a value is, and the body that comes with it. A
variant without a body is its bare name, or an object with the name alone and
nothing in it. -/
def variant? : Value → Option (String × Option Value)
  | .text name => name.toString?.map fun text => (text, none)
  | .object [(name, body)] => name.toString?.map fun text => (text, some body)
  | _ => none

def isAbsent : Option Value → Bool
  | none => true
  | some .null => true
  | _ => false

end Value

end GrammarTidy.Json
