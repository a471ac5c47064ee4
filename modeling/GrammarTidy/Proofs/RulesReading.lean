import GrammarTidy.Proofs.Depth
import GrammarTidy.Proofs.Memory

/-! How the rules section is read: one equation for each way to move, and the
induction over a text that follows the moves. -/

namespace GrammarTidy.Rules

open Byte

namespace Position

/-! ## What a position remembers of the byte before it -/

/-- The byte to come is quoted exactly when the byte before it is a quote. -/
def Steady (position : Position) : Prop :=
  position.cursor.nesting.quoted = (position.previous == quote)

theorem steady_initial : ({} : Position).Steady := rfl

theorem steady_skip (position : Position) (byte : UInt8) : (position.skip byte).Steady := rfl

theorem steady_openComment (position : Position) : position.openComment.Steady := rfl

theorem steady_closeComment (position : Position) : position.closeComment.Steady := rfl

theorem steady_read (position : Position) (byte : UInt8) : (position.read byte).Steady := by
  simp [Steady, read]

@[simp] theorem nesting_read (position : Position) (byte : UInt8) :
    (position.read byte).cursor.nesting = position.cursor.nesting.read byte :=
  position.cursor.nesting_read byte

@[simp] theorem offset_read (position : Position) (byte : UInt8) :
    (position.read byte).cursor.offset = position.cursor.offset + 1 :=
  position.cursor.offset_read byte

theorem read_eq_skip {position : Position} {byte : UInt8}
    (plain : position.cursor.nesting.role byte = .plain) :
    position.read byte = position.skip byte := by
  rw [read, Cursor.read, plain]
  rfl

theorem opensComment_of_ne {byte : UInt8} (position : Position) (notSlash : byte ≠ slash)
    (next : Option UInt8) : position.opensComment byte next = false := by
  simp [opensComment, notSlash]

end Position

/-! ## What a byte puts -/

theorem separator?_of_space {byte : UInt8} (space : isSpace byte = true) :
    separator? byte = none := by
  have notSemicolon : byte ≠ semicolon := ne_of_isSpace space rfl
  have notColon : byte ≠ colon := ne_of_isSpace space rfl
  have notBar : byte ≠ bar := ne_of_isSpace space rfl
  simp [separator?, notSemicolon, notColon, notBar]

theorem chunks_of_space (nesting : Nesting) (previous : UInt8) {byte : UInt8}
    (space : isSpace byte = true) : chunks nesting previous byte = [] := by
  simp [chunks, tokenChunks, separator?_of_space space, space]

theorem chunks_of_inner {nesting : Nesting} (inner : nesting.depth ≠ 0)
    (previous byte : UInt8) : chunks nesting previous byte = [] := by
  simp [chunks, inner]

theorem chunks_of_brace {nesting : Nesting} {byte : UInt8}
    (brace : nesting.role byte ≠ .plain) (previous : UInt8) :
    chunks nesting previous byte = [] := by
  simp [chunks, brace]

/-! ## Moves -/

section Moves

variable (settings : Settings) {position : Position} {byte : UInt8} {rest later : Bytes}

theorem trace_close (inside : position.comment.isSome) :
    (scanner settings).trace (star :: slash :: later) position =
      (scanner settings).trace later position.closeComment := by
  rw [Scanner.trace]
  simp [scanner, inside]

theorem trace_skip (inside : position.comment.isSome)
    (going : byte = star → rest.head? ≠ some slash) :
    (scanner settings).trace (byte :: rest) position =
      (scanner settings).trace rest (position.skip byte) := by
  have move : (scanner settings).move position byte rest.head? =
      .one [] (position.skip byte) := by
    simpa [scanner, inside] using going
  rw [Scanner.trace, move]
  rfl

theorem trace_open (outside : position.comment = none)
    (live : position.cursor.nesting.quoted = false) :
    (scanner settings).trace (slash :: star :: later) position =
      (scanner settings).trace later position.openComment := by
  have role : position.cursor.nesting.role slash = .plain :=
    Nesting.role_of_not_brace _ (by decide) (by decide)
  rw [Scanner.trace]
  simp [scanner, outside, Cursor.strays, role, Position.opensComment, live]

theorem trace_read (outside : position.comment = none)
    (ordinary : position.opensComment byte rest.head? = false) :
    (scanner settings).trace (byte :: rest) position =
      if settings.strict && position.cursor.strays byte then
        { ending := .rejected position.cursor.strayClose }
      else
        ((scanner settings).trace rest (position.read byte)).after
          (chunks position.cursor.nesting position.previous byte) := by
  have move : (scanner settings).move position byte rest.head? =
      if settings.strict && position.cursor.strays byte then
        .reject position.cursor.strayClose
      else
        .one (chunks position.cursor.nesting position.previous byte) (position.read byte) := by
    simp [scanner, outside, ordinary]
  rw [Scanner.trace, move]
  cases settings.strict && position.cursor.strays byte <;> rfl

theorem trace_read_of_lenient {settings : Settings} (lenient : settings.strict = false)
    (outside : position.comment = none)
    (ordinary : position.opensComment byte rest.head? = false) :
    (scanner settings).trace (byte :: rest) position =
      ((scanner settings).trace rest (position.read byte)).after
        (chunks position.cursor.nesting position.previous byte) := by
  rw [trace_read settings outside ordinary, lenient]
  rfl

theorem trace_silent (outside : position.comment = none)
    (ordinary : position.opensComment byte rest.head? = false)
    (kept : position.cursor.strays byte = false)
    (nothing : chunks position.cursor.nesting position.previous byte = []) :
    (scanner settings).trace (byte :: rest) position =
      (scanner settings).trace rest (position.read byte) := by
  rw [trace_read settings outside ordinary, kept, Bool.and_false, nothing]
  rfl

theorem trace_space (outside : position.comment = none) (space : isSpace byte = true) :
    (scanner settings).trace (byte :: rest) position =
      (scanner settings).trace rest (position.read byte) := by
  apply trace_silent settings outside
  · exact position.opensComment_of_ne (ne_of_isSpace space rfl) _
  · simp [Cursor.strays, Nesting.role_of_space _ space]
  · exact chunks_of_space _ _ space

end Moves

theorem reading_induction {motive : Position → Bytes → Prop}
    (finish : ∀ position, motive position [])
    (close : ∀ position later, position.comment.isSome →
      motive position.closeComment later → motive position (star :: slash :: later))
    (skip : ∀ position byte rest, position.comment.isSome →
      (byte = star → rest.head? ≠ some slash) →
      motive (position.skip byte) rest → motive position (byte :: rest))
    (enter : ∀ position later, position.comment = none →
      position.cursor.nesting.quoted = false →
      motive position.openComment later → motive position (slash :: star :: later))
    (read : ∀ position byte rest, position.comment = none →
      position.opensComment byte rest.head? = false →
      motive (position.read byte) rest → motive position (byte :: rest)) :
    ∀ position rest, motive position rest
  | position, [] => finish position
  | position, byte :: rest => by
      have shorter : ∀ position, motive position rest := fun position =>
        reading_induction finish close skip enter read position rest
      cases inside : position.comment with
      | some start =>
          have isSome : position.comment.isSome := by simp [inside]
          by_cases closes : byte = star ∧ rest.head? = some slash
          · rcases rest with _ | ⟨second, later⟩
            · simp at closes
            · rcases closes with ⟨rfl, second⟩
              cases Option.some.inj second
              exact close position later isSome
                (reading_induction finish close skip enter read _ later)
          · exact skip position byte rest isSome (fun star head => closes ⟨star, head⟩)
              (shorter _)
      | none =>
          cases opens : position.opensComment byte rest.head? with
          | false => exact read position byte rest inside opens (shorter _)
          | true =>
              rcases rest with _ | ⟨second, later⟩
              · simp [Position.opensComment] at opens
              · simp only [Position.opensComment, List.head?_cons, Bool.and_eq_true,
                  beq_iff_eq, Bool.not_eq_true', Option.some.injEq] at opens
                rcases opens with ⟨⟨rfl, live⟩, rfl⟩
                exact enter position later inside live
                  (reading_induction finish close skip enter read _ later)
termination_by _ rest => rest.length

/-! ## Where a scan comes to -/

def Position.reach (position : Position) (text : Bytes) : Position :=
  match ((scanner {}).trace text position).ending with
  | .finished last _ => last
  | .rejected _ => position

namespace Position

variable {position next : Position} {byte : UInt8} {text rest later : Bytes}

theorem reach_congr (same : ((scanner {}).trace text position).ending =
    ((scanner {}).trace rest next).ending) : position.reach text = next.reach rest := by
  rcases (@tolerant {} rfl).trace rest next with ⟨last, unread, finished⟩
  unfold reach
  rw [same, finished]

theorem reach_close (inside : position.comment.isSome) :
    position.reach (star :: slash :: later) = position.closeComment.reach later := by
  apply reach_congr
  rw [trace_close {} inside]

theorem reach_skip (inside : position.comment.isSome)
    (going : byte = star → rest.head? ≠ some slash) :
    position.reach (byte :: rest) = (position.skip byte).reach rest := by
  apply reach_congr
  rw [trace_skip {} inside going]

theorem reach_open (outside : position.comment = none)
    (live : position.cursor.nesting.quoted = false) :
    position.reach (slash :: star :: later) = position.openComment.reach later := by
  apply reach_congr
  rw [trace_open {} outside live]

theorem reach_read (outside : position.comment = none)
    (ordinary : position.opensComment byte rest.head? = false) :
    position.reach (byte :: rest) = (position.read byte).reach rest := by
  apply reach_congr
  rw [trace_read_of_lenient rfl outside ordinary]
  rfl

end Position

end GrammarTidy.Rules
