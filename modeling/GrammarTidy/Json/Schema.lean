import GrammarTidy.Json.Codec
import GrammarTidy.Mode

namespace GrammarTidy

open Json (Codec Value)

/-! The JSON forms: a mode is its name, settings are a record of switches, a kind of
fault is a variant, of which only an unclosed block has a body, and a fault is a
record of its kind and its place. -/

/-! ## Modes -/

def Mode.jsonName : Mode → String
  | .hollow => "strip-semantics"
  | .tidy => "purify-grammar"

instance : Codec Mode where
  encode mode := Value.ofString mode.jsonName
  decode? value := do
    let (name, body) ← value.variant?
    if !Value.isAbsent body then none
    else [Mode.hollow, Mode.tidy].find? fun mode => mode.jsonName = name

/-! ## Settings -/

/-- A field of the settings; one that is not there is off. -/
def Settings.switch? : Option Value → Option Bool
  | none => some false
  | some value => value.bool?

instance : Codec Settings where
  encode settings := Value.record
    [ ("strict", .bool settings.strict),
      ("marker_requires_top_level", .bool settings.topLevelMarker) ]
  decode? value := do
    match ← value.fields? ["strict", "marker_requires_top_level"] with
    | [strict, topLevelMarker] =>
        return { strict := ← Settings.switch? strict
                 topLevelMarker := ← Settings.switch? topLevelMarker }
    | _ => none

/-! ## Faults -/

instance : Codec Fault.Kind where
  encode
    | .strayClose => Value.ofString "UnbalancedClose"
    | .unclosedComment => Value.ofString "UnterminatedComment"
    | .unclosedBlock depth => Value.record
        [("UnclosedBlock", Value.record [("depth", Value.ofInt depth)])]
  decode? value := do
    let (name, body) ← value.variant?
    if name = "UnclosedBlock" then
      match ← (← body).fields? ["depth"] with
      | [some depth] => return .unclosedBlock (← depth.signed?)
      | _ => none
    else if !Value.isAbsent body then none
    else if name = "UnbalancedClose" then some .strayClose
    else if name = "UnterminatedComment" then some .unclosedComment
    else none

instance : Codec Fault where
  encode fault := Value.record
    [ ("kind", Codec.encode fault.kind),
      ("offset", Value.ofInt fault.location.offset),
      ("line", Value.ofInt fault.location.line),
      ("column", Value.ofInt fault.location.column) ]
  decode? value := do
    match ← value.fields? ["kind", "offset", "line", "column"] with
    | [some kind, some offset, some line, some column] =>
        return { kind := ← Codec.decode? kind
                 location :=
                  { offset := ← offset.unsigned?
                    line := ← line.unsigned?
                    column := ← column.unsigned? } }
    | _ => none

end GrammarTidy
