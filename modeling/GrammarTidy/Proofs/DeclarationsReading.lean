import GrammarTidy.Proofs.Depth
import GrammarTidy.Proofs.Memory

/-! How the declarations are read, up to their marker or to the end. -/

namespace GrammarTidy.Declarations

open Byte

variable (settings : Settings)

def Position.read (position : Position) (byte : UInt8) : Position :=
  { position with
    cursor := position.cursor.read byte
    afterPercent := isMarkerHalf settings position.cursor.nesting byte }

def Position.endAt (position : Position) (byte : UInt8) : Position :=
  { position.read settings byte with rulesStart := some (position.cursor.offset + 1) }

def Position.endsMarker (position : Position) (byte : UInt8) : Bool :=
  isMarkerHalf settings position.cursor.nesting byte && position.afterPercent

@[simp] theorem Position.cursor_read (position : Position) (byte : UInt8) :
    (position.read settings byte).cursor = position.cursor.read byte := rfl

@[simp] theorem Position.cursor_endAt (position : Position) (byte : UInt8) :
    (position.endAt settings byte).cursor = position.cursor.read byte := rfl

def kept (nesting : Nesting) (byte : UInt8) : Bytes :=
  if keeps nesting byte then [byte] else []

theorem move_eq (position : Position) (byte : UInt8) (next : Option UInt8) :
    (scanner settings).move position byte next =
      if settings.strict && position.cursor.strays byte then
        .reject position.cursor.strayClose
      else
        let chunks := if keeps position.cursor.nesting byte then [[byte]] else []
        if position.endsMarker settings byte then
          .stop (chunks ++ [markerBreak]) (position.endAt settings byte)
        else
          .one chunks (position.read settings byte) := by
  simp [scanner, Position.endsMarker, Position.endAt, Position.read]

theorem trace_cons (position : Position) (byte : UInt8) (rest : Bytes) :
    (scanner settings).trace (byte :: rest) position =
      if settings.strict && position.cursor.strays byte then
        { ending := .rejected position.cursor.strayClose }
      else
        let chunks := if keeps position.cursor.nesting byte then [[byte]] else []
        if position.endsMarker settings byte then
          { chunks := chunks ++ [markerBreak]
            ending := .finished (position.endAt settings byte) rest }
        else
          ((scanner settings).trace rest (position.read settings byte)).after chunks := by
  rw [Scanner.trace, move_eq]
  cases settings.strict && position.cursor.strays byte with
  | true => rfl
  | false => cases position.endsMarker settings byte <;> rfl

variable {settings}

theorem output_cons (lenient : settings.strict = false) (position : Position) (byte : UInt8)
    (rest : Bytes) :
    ((scanner settings).trace (byte :: rest) position).output =
      kept position.cursor.nesting byte ++
        if position.endsMarker settings byte then markerBreak
        else ((scanner settings).trace rest (position.read settings byte)).output := by
  have flat : (if keeps position.cursor.nesting byte then [[byte]] else []).flatten =
      kept position.cursor.nesting byte := by
    unfold kept
    split <;> rfl
  rw [trace_cons, lenient]
  cases position.endsMarker settings byte <;>
    simp [Scanner.Trace.output, flat]

theorem ending_cons (settings : Settings) (position : Position) (byte : UInt8) (rest : Bytes) :
    ((scanner settings).trace (byte :: rest) position).ending =
      if settings.strict && position.cursor.strays byte then
        .rejected position.cursor.strayClose
      else if position.endsMarker settings byte then
        .finished (position.endAt settings byte) rest
      else
        ((scanner settings).trace rest (position.read settings byte)).ending := by
  rw [trace_cons]
  split
  · rfl
  · cases position.endsMarker settings byte <;> rfl

theorem ending_cons_of_lenient (lenient : settings.strict = false) (position : Position)
    (byte : UInt8) (rest : Bytes) :
    ((scanner settings).trace (byte :: rest) position).ending =
      if position.endsMarker settings byte then .finished (position.endAt settings byte) rest
      else ((scanner settings).trace rest (position.read settings byte)).ending := by
  rw [ending_cons, lenient]
  rfl

/-- Where a scan of the declarations of `text` ends: at the marker, or at the
end of the text. -/
structure Position.EndsBefore (last : Position) (text unread : Bytes) : Prop where
  follows : last.cursor.Follows text unread
  marker : last.rulesStart = some last.cursor.offset ∨ last.rulesStart = none ∧ unread = []

theorem exists_finished (lenient : settings.strict = false) {text : Bytes} :
    ∀ (rest : Bytes) (position : Position), position.cursor.Follows text rest →
      position.rulesStart = none →
      ∃ last unread, ((scanner settings).trace rest position).ending = .finished last unread ∧
        last.EndsBefore text unread := by
  intro rest
  induction rest with
  | nil =>
      intro position follows unmarked
      exact ⟨position, [], rfl, follows, .inr ⟨unmarked, rfl⟩⟩
  | cons byte rest induction =>
      intro position follows unmarked
      rw [ending_cons_of_lenient lenient]
      split
      · refine ⟨_, rest, rfl, follows.read, .inl ?_⟩
        change some _ = some (position.cursor.read byte).offset
        rw [Cursor.offset_read]
      · exact induction (position.read settings byte) follows.read unmarked

section Finished

variable {source unread : Bytes} {last : Position}
  (finished : ((scanner settings).trace source {}).ending = .finished last unread)

include finished

theorem endsBefore_of_finished (lenient : settings.strict = false) :
    last.EndsBefore source unread := by
  rcases exists_finished lenient source {} (Cursor.follows_initial source) rfl with
    ⟨_, _, same, ends⟩
  cases finished.symm.trans same
  exact ends

theorem verdict_of_finished (lenient : settings.strict = false) :
    (scanner settings).verdict source = .ok last := by
  rw [Scanner.verdict_of_finished finished, (tolerant lenient).ends]

theorem result_of_finished (lenient : settings.strict = false) :
    result settings source =
      .ok (last.rulesStart, last.tally source (output settings source).length) := by
  rw [result, Scanner.result, verdict_of_finished finished lenient]

/-- A tidied text is its declarations and its rules, each scanned on its own. -/
theorem tidy_output_of_finished (lenient : settings.strict = false) :
    Tidy.output settings source = output settings source ++
      if last.rulesStart.isSome then Rules.output settings unread else [] := by
  have ends := endsBefore_of_finished finished lenient
  rw [Tidy.output, result_of_finished finished lenient]
  rcases ends.marker with marked | ⟨unmarked, rfl⟩
  · simp [marked, ends.follows.rest]
  · simp [unmarked]

end Finished

end GrammarTidy.Declarations
