import GrammarTidy.Proofs.RulesReading

/-! Laid-out rules as a sequence of cells: separators with their line breaks, and
single bytes with or without a space before them. Everything that the layout
puts is such a sequence, and a second layout can be followed cell by cell. -/

namespace GrammarTidy.Rules

open Byte

/-- What the layout puts for one byte. -/
inductive Cell where
  | semicolon
  | colon
  | bar
  | token (spaced : Bool) (byte : UInt8)
deriving DecidableEq, Repr

/-- The bytes that stand for themselves only behind a quote. -/
def isSpecial (byte : UInt8) : Bool :=
  byte == openBrace || byte == closeBrace || (separator? byte).isSome

namespace Cell

def text : Cell → Bytes
  | semicolon => [Byte.semicolon, newline, newline]
  | colon => [Byte.colon, newline, space]
  | bar => [newline, Byte.bar]
  | token true byte => [space, byte]
  | token false byte => [byte]

def endsInQuote : Cell → Bool
  | token _ byte => byte == quote
  | _ => false

def isColon : Cell → Bool
  | colon => true
  | _ => false

/-- A cell that the layout can put, where `quoted` says whether a quote comes
right before it. -/
def Fits (quoted : Bool) : Cell → Prop
  | token spaced byte =>
      isSpace byte = false ∧ (isSpecial byte = true → quoted = true ∧ spaced = false)
  | _ => True

end Cell

def render (cells : List Cell) : Bytes := cells.flatMap Cell.text

@[simp] theorem render_nil : render [] = [] := rfl

@[simp] theorem render_cons (cell : Cell) (cells : List Cell) :
    render (cell :: cells) = cell.text ++ render cells := rfl

def LaidOut : Bool → List Cell → Prop
  | _, [] => True
  | quoted, cell :: rest => cell.Fits quoted ∧ LaidOut cell.endsInQuote rest

/-! ## The first layout -/

def separatorCell? (byte : UInt8) : Option Cell :=
  if byte == semicolon then some .semicolon
  else if byte == colon then some .colon
  else if byte == bar then some .bar
  else none

theorem separator?_eq (byte : UInt8) :
    separator? byte = (separatorCell? byte).map Cell.text := by
  unfold separator? separatorCell?
  split
  · rfl
  · split
    · rfl
    · split <;> rfl

theorem separatorCell?_cases {byte : UInt8} {cell : Cell}
    (found : separatorCell? byte = some cell) :
    (byte = semicolon ∧ cell = .semicolon) ∨ (byte = colon ∧ cell = .colon) ∨
      (byte = bar ∧ cell = .bar) := by
  unfold separatorCell? at found
  split at found
  · simp_all
  · split at found
    · simp_all
    · split at found <;> simp_all

def cell? (nesting : Nesting) (previous byte : UInt8) : Option Cell :=
  if nesting.role byte = .plain ∧ nesting.depth = 0 then
    match if nesting.quoted then none else separatorCell? byte with
    | some cell => some cell
    | none => if isSpace byte then none else some (.token (isBlank previous) byte)
  else
    none

theorem flatten_chunks (nesting : Nesting) (previous byte : UInt8) :
    (chunks nesting previous byte).flatten =
      render (cell? nesting previous byte).toList := by
  have tokens : (tokenChunks previous byte).flatten =
      render (if isSpace byte then none
        else some (.token (isBlank previous) byte) : Option Cell).toList := by
    unfold tokenChunks
    cases isSpace byte <;> cases isBlank previous <;> rfl
  unfold chunks cell?
  by_cases visible : nesting.role byte = .plain ∧ nesting.depth = 0
  · rw [separator?_eq]
    simp only [visible, decide_true, Bool.and_self, if_true, and_self]
    cases nesting.quoted with
    | true => exact tokens
    | false =>
        cases separatorCell? byte with
        | none => exact tokens
        | some cell => simp
  · rw [if_neg visible, if_neg (by simpa using visible)]
    rfl

private theorem cell?_cases {nesting : Nesting} {previous byte : UInt8} {cell : Cell}
    (found : cell? nesting previous byte = some cell) :
    separatorCell? byte = some cell ∨
      (cell = .token (isBlank previous) byte ∧ isSpace byte = false ∧ nesting.depth = 0 ∧
        (isSpecial byte = true → nesting.quoted = true)) := by
  unfold cell? at found
  split at found
  · rename_i visible
    cases quoted : nesting.quoted with
    | true =>
        simp only [quoted, if_true, Option.ite_none_left_eq_some, Option.some.injEq] at found
        refine .inr ⟨found.2.symm, by simpa using found.1, visible.2, fun _ => rfl⟩
    | false =>
        simp only [quoted, Bool.false_eq_true, if_false] at found
        cases separates : separatorCell? byte with
        | some separator =>
            rw [separates] at found
            exact .inl found
        | none =>
            simp only [separates, Option.ite_none_left_eq_some, Option.some.injEq] at found
            refine .inr ⟨found.2.symm, by simpa using found.1, visible.2, fun special => ?_⟩
            have notOpen : byte ≠ openBrace := fun equal => by
              simp [Nesting.role_eq_opening_iff.mpr ⟨quoted, equal⟩] at visible
            have notClose : byte ≠ closeBrace := fun equal => by
              simp [Nesting.role_eq_closing_iff.mpr ⟨quoted, equal⟩] at visible
            simp [isSpecial, notOpen, notClose, separator?_eq, separates] at special
  · cases found

private theorem cell?_quote {nesting : Nesting} (outside : nesting.depth = 0) (previous : UInt8) :
    cell? nesting previous quote = some (.token (isBlank previous) quote) := by
  have plain : nesting.role quote = .plain :=
    Nesting.role_of_not_brace _ (by decide) (by decide)
  have none : (if nesting.quoted then none else separatorCell? quote) = none := by
    cases nesting.quoted <;> rfl
  rw [cell?, if_pos ⟨plain, outside⟩, none]
  rfl

private theorem endsInQuote_of_cell? {nesting : Nesting} {previous byte : UInt8} {cell : Cell}
    (found : cell? nesting previous byte = some cell) :
    cell.endsInQuote = (byte == quote) := by
  rcases cell?_cases found with separates | ⟨rfl, -⟩
  · rcases separatorCell?_cases separates with ⟨rfl, rfl⟩ | ⟨rfl, rfl⟩ | ⟨rfl, rfl⟩ <;> rfl
  · rfl

private theorem fits_of_cell? {nesting : Nesting} {previous byte : UInt8} {cell : Cell}
    {quoted : Bool} (found : cell? nesting previous byte = some cell)
    (steady : nesting.quoted = (previous == quote))
    (carried : nesting.depth = 0 → nesting.quoted = true → quoted = true) :
    cell.Fits quoted := by
  rcases cell?_cases found with separates | ⟨rfl, visible, outside, special⟩
  · rcases separatorCell?_cases separates with ⟨-, rfl⟩ | ⟨-, rfl⟩ | ⟨-, rfl⟩ <;> trivial
  · refine ⟨visible, fun isSpecial => ⟨carried outside (special isSpecial), ?_⟩⟩
    have afterQuote : previous = quote := by
      simpa [special isSpecial] using steady.symm
    rw [afterQuote]
    rfl

/-- All that a layout puts is laid out. The quote before a quoted byte outside
comments and blocks was put itself, right before that byte. -/
theorem exists_cells {settings : Settings} (lenient : settings.strict = false) :
    ∀ (position : Position) (rest : Bytes) (quoted : Bool), position.Steady →
      (position.comment = none → position.cursor.nesting.depth = 0 →
        position.cursor.nesting.quoted = true → quoted = true) →
      ∃ cells, LaidOut quoted cells ∧
        ((scanner settings).trace rest position).output = render cells := by
  intro position rest
  induction position, rest using reading_induction with
  | finish position =>
      intro quoted steady carried
      exact ⟨[], trivial, rfl⟩
  | close position later inside induction =>
      intro quoted steady carried
      rw [trace_close settings inside]
      exact induction quoted position.steady_closeComment fun _ _ live => by cases live
  | skip position byte rest inside going induction =>
      intro quoted steady carried
      rw [trace_skip settings inside going]
      refine induction quoted (position.steady_skip byte) fun outside => ?_
      have same : position.comment = none := outside
      simp [same] at inside
  | enter position later outside live induction =>
      intro quoted steady carried
      rw [trace_open settings outside live]
      exact induction quoted position.steady_openComment fun outside => by cases outside
  | read position byte rest outside ordinary induction =>
      intro quoted steady carried
      rw [trace_read_of_lenient lenient outside ordinary, Scanner.Trace.output_after,
        flatten_chunks]
      have quotedAfter : (position.read byte).cursor.nesting.quoted = (byte == quote) := by
        simp
      cases found : cell? position.cursor.nesting position.previous byte with
      | none =>
          refine induction quoted (position.steady_read byte) fun _ zero live => ?_
          have isQuote : byte = quote := by
            simpa [quotedAfter] using live
          subst byte
          have plain : position.cursor.nesting.role quote = .plain :=
            Nesting.role_of_not_brace _ (by decide) (by decide)
          have outermost : position.cursor.nesting.depth = 0 := by
            simpa [Position.read, Nesting.read_of_plain plain] using zero
          simp [cell?_quote outermost] at found
      | some cell =>
          have fits := fits_of_cell? found steady (carried outside)
          rcases induction cell.endsInQuote (position.steady_read byte) (fun _ _ live => by
            rw [endsInQuote_of_cell? found, ← quotedAfter, live]) with ⟨cells, laid, put⟩
          refine ⟨cell :: cells, ⟨fits, laid⟩, ?_⟩
          rw [put]
          simp

/-! ## The second layout -/

def Cell.settle (afterColon : Bool) : Cell → Cell
  | .token spaced byte => .token (spaced || afterColon) byte
  | cell => cell

def settle : Bool → List Cell → List Cell
  | _, [] => []
  | afterColon, cell :: rest => cell.settle afterColon :: settle cell.isColon rest

/-- A cell that a second layout reads as the first one meant it: a separator
that is not quoted by a byte which ended up before it, and a slash that does not
start a comment with the cell after it. -/
def Cell.Firm (quoted : Bool) (next : Option Cell) : Cell → Prop
  | .semicolon => quoted = false
  | .colon => quoted = false
  | .bar => True
  | .token spaced byte =>
      byte = slash → (quoted && !spaced) = false → next ≠ some (.token false star)

def Firm : Bool → List Cell → Prop
  | _, [] => True
  | quoted, cell :: rest => cell.Firm quoted rest.head? ∧ Firm cell.endsInQuote rest

structure Position.Idle (position : Position) : Prop where
  comment : position.comment = none
  depth : position.cursor.nesting.depth = 0

section SecondLayout

variable {settings : Settings} {position : Position} {byte : UInt8} {rest : Bytes}

theorem Position.Idle.read (idle : position.Idle)
    (plain : position.cursor.nesting.role byte = .plain) : (position.read byte).Idle where
  comment := idle.comment
  depth := by
    simpa [Position.read, Nesting.read_of_plain plain] using idle.depth

theorem output_of_idle (lenient : settings.strict = false) (idle : position.Idle)
    (ordinary : position.opensComment byte rest.head? = false) :
    ((scanner settings).trace (byte :: rest) position).output =
      render (cell? position.cursor.nesting position.previous byte).toList ++
        ((scanner settings).trace rest (position.read byte)).output := by
  rw [trace_read_of_lenient lenient idle.comment ordinary, Scanner.Trace.output_after,
    flatten_chunks]

/-! One byte of the second layout: a separator, or a token. -/

theorem role_of_separator {cell : Cell} (nesting : Nesting)
    (separates : separatorCell? byte = some cell) : nesting.role byte = .plain := by
  rcases separatorCell?_cases separates with ⟨rfl, -⟩ | ⟨rfl, -⟩ | ⟨rfl, -⟩ <;>
    exact Nesting.role_of_not_brace _ (by decide) (by decide)

theorem output_separator {cell : Cell} (lenient : settings.strict = false)
    (idle : position.Idle) (live : position.cursor.nesting.quoted = false)
    (separates : separatorCell? byte = some cell) :
    ((scanner settings).trace (byte :: rest) position).output =
      cell.text ++ ((scanner settings).trace rest (position.read byte)).output := by
  have ordinary : position.opensComment byte rest.head? = false := by
    rcases separatorCell?_cases separates with ⟨rfl, -⟩ | ⟨rfl, -⟩ | ⟨rfl, -⟩ <;> rfl
  have found : cell? position.cursor.nesting position.previous byte = some cell := by
    rw [cell?, if_pos ⟨role_of_separator _ separates, idle.depth⟩, live, separates]
    rfl
  rw [output_of_idle lenient idle ordinary, found]
  simp

private theorem role_of_token {nesting : Nesting} (special : isSpecial byte = true →
    nesting.quoted = true) : nesting.role byte = .plain := by
  cases quoted : nesting.quoted with
  | true => exact Nesting.role_of_quoted quoted byte
  | false =>
      have ordinary : isSpecial byte = false := by
        simpa [quoted] using special
      simp only [isSpecial, Bool.or_eq_false_iff, beq_eq_false_iff_ne] at ordinary
      exact Nesting.role_of_not_brace _ ordinary.1.1 ordinary.1.2

private theorem output_token (lenient : settings.strict = false) (idle : position.Idle)
    (visible : isSpace byte = false)
    (special : isSpecial byte = true → position.cursor.nesting.quoted = true)
    (ordinary : position.opensComment byte rest.head? = false) :
    ((scanner settings).trace (byte :: rest) position).output =
      (Cell.token (isBlank position.previous) byte).text ++
        ((scanner settings).trace rest (position.read byte)).output := by
  have none : (if position.cursor.nesting.quoted then none else separatorCell? byte) =
      none := by
    cases quoted : position.cursor.nesting.quoted with
    | true => rfl
    | false =>
        have plain : isSpecial byte = false := by
          simpa [quoted] using special
        simpa [isSpecial, separator?_eq] using (Bool.or_eq_false_iff.mp plain).2
  have found : cell? position.cursor.nesting position.previous byte =
      some (.token (isBlank position.previous) byte) := by
    rw [cell?, if_pos ⟨role_of_token special, idle.depth⟩, none]
    simp [visible]
  rw [output_of_idle lenient idle ordinary, found]
  simp

theorem output_cell {cell : Cell} {next : Option Cell} (lenient : settings.strict = false)
    (idle : position.Idle) (fits : cell.Fits position.cursor.nesting.quoted)
    (firm : cell.Firm position.cursor.nesting.quoted next)
    (ahead : rest.head? = some star → next = some (.token false star)) :
    ∃ after : Position, after.Idle ∧ after.cursor.nesting.quoted = cell.endsInQuote ∧
      isBlank after.previous = cell.isColon ∧
      ((scanner settings).trace (cell.text ++ rest) position).output =
        (cell.settle (isBlank position.previous)).text ++
          ((scanner settings).trace rest after).output := by
  have quotedAfter : ∀ (position : Position) byte,
      (position.read byte).cursor.nesting.quoted = (byte == quote) := by
    simp
  cases cell with
  | semicolon =>
      have first : (position.read semicolon).Idle := idle.read (role_of_separator _ rfl)
      have second : ((position.read semicolon).read newline).Idle :=
        first.read (Nesting.role_of_space _ rfl)
      have third : (((position.read semicolon).read newline).read newline).Idle :=
        second.read (Nesting.role_of_space _ rfl)
      refine ⟨_, third, quotedAfter _ _, rfl, ?_⟩
      simp only [Cell.text, Cell.settle, List.cons_append, List.nil_append]
      rw [output_separator lenient idle firm rfl, trace_space settings first.comment rfl,
        trace_space settings second.comment rfl]
      rfl
  | colon =>
      have first : (position.read colon).Idle := idle.read (role_of_separator _ rfl)
      have second : ((position.read colon).read newline).Idle :=
        first.read (Nesting.role_of_space _ rfl)
      have third : (((position.read colon).read newline).read space).Idle :=
        second.read (Nesting.role_of_space _ rfl)
      refine ⟨_, third, quotedAfter _ _, rfl, ?_⟩
      simp only [Cell.text, Cell.settle, List.cons_append, List.nil_append]
      rw [output_separator lenient idle firm rfl, trace_space settings first.comment rfl,
        trace_space settings second.comment rfl]
      rfl
  | bar =>
      have first : (position.read newline).Idle := idle.read (Nesting.role_of_space _ rfl)
      have second : ((position.read newline).read bar).Idle :=
        first.read (role_of_separator _ rfl)
      refine ⟨_, second, quotedAfter _ _, rfl, ?_⟩
      simp only [Cell.text, Cell.settle, List.cons_append, List.nil_append]
      rw [trace_space settings idle.comment rfl,
        output_separator lenient first (quotedAfter _ _) rfl]
      rfl
  | token spaced byte =>
      rcases fits with ⟨visible, special⟩
      have notBlank : isBlank byte = false := (Bool.or_eq_false_iff.mp visible).1
      cases spaced with
      | false =>
          have quoted : isSpecial byte = true → position.cursor.nesting.quoted = true :=
            fun isSpecial => (special isSpecial).1
          have ordinary : position.opensComment byte rest.head? = false := by
            rw [Position.opensComment, Bool.eq_false_iff]
            intro opens
            simp only [Bool.and_eq_true, beq_iff_eq, Bool.not_eq_true'] at opens
            exact firm opens.1.1 (by simp [opens.1.2]) (ahead opens.2)
          refine ⟨_, idle.read (role_of_token quoted), quotedAfter _ _, notBlank, ?_⟩
          exact output_token lenient idle visible quoted ordinary
      | true =>
          have first : (position.read space).Idle := idle.read (Nesting.role_of_space _ rfl)
          have quoted : isSpecial byte = true →
              (position.read space).cursor.nesting.quoted = true :=
            fun isSpecial => absurd (special isSpecial).2 (by decide)
          have ordinary : (position.read space).opensComment byte rest.head? = false := by
            rw [Position.opensComment, Bool.eq_false_iff]
            intro opens
            simp only [Bool.and_eq_true, beq_iff_eq, Bool.not_eq_true'] at opens
            exact firm opens.1.1 (by simp) (ahead opens.2)
          refine ⟨_, first.read (role_of_token quoted), quotedAfter _ _, notBlank, ?_⟩
          exact (congrArg _ (trace_space settings idle.comment rfl)).trans
            (output_token lenient first visible quoted ordinary)

theorem head?_render_iff {cells : List Cell} :
    (render cells).head? = some star ↔ cells.head? = some (.token false star) := by
  rcases cells with _ | ⟨_ | _ | _ | ⟨_ | _, byte⟩, rest⟩ <;> simp +decide [Cell.text]

/-- A second layout of firm cells settles them. -/
theorem output_render (lenient : settings.strict = false) :
    ∀ (cells : List Cell) (position : Position), position.Idle →
      LaidOut position.cursor.nesting.quoted cells →
      Firm position.cursor.nesting.quoted cells →
      ((scanner settings).trace (render cells) position).output =
        render (settle (isBlank position.previous) cells) := by
  intro cells
  induction cells with
  | nil =>
      intro position idle laid firm
      rfl
  | cons cell rest induction =>
      intro position idle laid firm
      rcases output_cell lenient idle laid.1 firm.1 head?_render_iff.mp with
        ⟨after, idleAfter, quotedAfter, blankAfter, put⟩
      have laidAfter := laid.2
      have firmAfter := firm.2
      rw [← quotedAfter] at laidAfter firmAfter
      rw [render_cons, put, induction after idleAfter laidAfter firmAfter, blankAfter]
      rfl

end SecondLayout

end GrammarTidy.Rules
