import GrammarTidy.Proofs.Cells

/-! What a second layout of a rules section changes. -/

namespace GrammarTidy.Rules

open Byte

/-- The rules section `source`, laid out in memory. -/
def layOut (topLevelMarker : Bool) (source : Bytes) : Bytes :=
  (Outlet.inMemory (Rules.run · { topLevelMarker } source)).2

/-- One more space behind every colon layout that a token follows directly.
`behind` is the text before, backwards. -/
def widenBehind (behind : Bytes) : Bytes → Bytes
  | [] => []
  | byte :: rest =>
      if [space, newline, colon] <+: behind ∧ byte ∉ [space, semicolon, colon, newline] then
        space :: byte :: widenBehind (byte :: behind) rest
      else
        byte :: widenBehind (byte :: behind) rest

def widen (text : Bytes) : Bytes := widenBehind [] text

/-- A colon layout gets a second space if a token follows it directly. -/
example : widen [colon, newline, space, bar, colon, newline, space, space, star] =
    [colon, newline, space, space, bar, colon, newline, space, space, star] := rfl

/-- A text that a layout reads otherwise than it was meant: a quote came to stand
before the layout of a separator, or a slash and a star came together. -/
def Fragile (text : Bytes) : Prop :=
  [quote, semicolon, newline, newline] <:+: text ∨
    [quote, colon, newline, space] <:+: text ∨
    ∃ before after, text = before ++ [slash, star] ++ after ∧ before.getLast? ≠ some quote

/-! ## Settled cells -/

theorem Cell.endsInQuote_settle (afterColon : Bool) (cell : Cell) :
    (cell.settle afterColon).endsInQuote = cell.endsInQuote := by
  cases cell <;> rfl

private theorem Cell.isColon_settle (afterColon : Bool) (cell : Cell) :
    (cell.settle afterColon).isColon = cell.isColon := by
  cases cell <;> rfl

theorem Cell.endsInQuote_of_isColon {cell : Cell} (isColon : cell.isColon = true) :
    cell.endsInQuote = false := by
  cases cell with
  | token spaced byte => cases isColon
  | _ => rfl

theorem laidOut_settle {cells : List Cell} {afterColon quoted : Bool}
    (apart : afterColon = true → quoted = false) (laid : LaidOut quoted cells) :
    LaidOut quoted (settle afterColon cells) := by
  induction cells generalizing afterColon quoted with
  | nil => trivial
  | cons cell rest induction =>
      refine ⟨?_, ?_⟩
      · cases cell with
        | token spaced byte =>
            refine ⟨laid.1.1, fun special => ?_⟩
            rcases laid.1.2 special with ⟨isQuoted, tight⟩
            refine ⟨isQuoted, ?_⟩
            cases afterColon with
            | false => simp [tight]
            | true => simp [apart rfl] at isQuoted
        | _ => trivial
      · rw [Cell.endsInQuote_settle]
        exact induction Cell.endsInQuote_of_isColon laid.2

private theorem head?_settle_false {cells : List Cell}
    (head : (settle false cells).head? = some (.token false star)) :
    cells.head? = some (.token false star) := by
  rcases cells with _ | ⟨_ | _ | _ | ⟨spaced, byte⟩, rest⟩ <;>
    simp_all [settle, Cell.settle]

theorem firm_settle {cells : List Cell} {afterColon quoted : Bool}
    (apart : afterColon = true → quoted = false) (firm : Firm quoted cells) :
    Firm quoted (settle afterColon cells) := by
  induction cells generalizing afterColon quoted with
  | nil => trivial
  | cons cell rest induction =>
      refine ⟨?_, ?_⟩
      · cases cell with
        | token spaced byte =>
            intro isSlash tight head
            refine firm.1 isSlash ?_ (head?_settle_false head)
            cases afterColon with
            | false => simpa using tight
            | true => simp [apart rfl]
        | _ => exact firm.1
      · rw [Cell.endsInQuote_settle]
        exact induction Cell.endsInQuote_of_isColon firm.2

theorem settle_settle (cells : List Cell) (afterColon : Bool) :
    settle afterColon (settle afterColon cells) = settle afterColon cells := by
  induction cells generalizing afterColon with
  | nil => rfl
  | cons cell rest induction =>
      have twice : (cell.settle afterColon).settle afterColon = cell.settle afterColon := by
        cases cell <;> simp [Cell.settle]
      rw [settle, settle, twice, Cell.isColon_settle, induction]

private theorem filter_render_settle (cells : List Cell) (afterColon : Bool) :
    (render (settle afterColon cells)).filter (· != space) =
      (render cells).filter (· != space) := by
  induction cells generalizing afterColon with
  | nil => rfl
  | cons cell rest induction =>
      have same : (cell.settle afterColon).text.filter (· != space) =
          cell.text.filter (· != space) := by
        rcases cell with _ | _ | _ | ⟨_ | _, byte⟩ <;> cases afterColon <;> rfl
      rw [settle, render_cons, render_cons, List.filter_append, List.filter_append, same,
        induction]

theorem widenBehind_render {cells : List Cell} {behind : Bytes} {quoted : Bool}
    (laid : LaidOut quoted cells)
    (apart : [space, newline, colon] <+: behind → quoted = false)
    (whole : ¬[newline, colon] <+: behind) :
    widenBehind behind (render cells) =
      render (settle (decide ([space, newline, colon] <+: behind)) cells) := by
  induction cells generalizing behind quoted with
  | nil => rfl
  | cons cell rest induction =>
      rw [settle, render_cons, render_cons]
      cases cell with
      | semicolon =>
          have later := @induction (newline :: newline :: semicolon :: behind) _ laid.2
            (by simp +decide) (by simp +decide)
          simp +decide [Cell.text, Cell.settle, Cell.isColon, widenBehind, later]
      | colon =>
          have later := @induction (space :: newline :: colon :: behind) _ laid.2
            (fun _ => rfl) (by simp +decide)
          simp +decide [Cell.text, Cell.settle, Cell.isColon, widenBehind, later]
      | bar =>
          have later := @induction (bar :: newline :: behind) _ laid.2
            (by simp +decide) (by simp +decide)
          simp +decide [Cell.text, Cell.settle, Cell.isColon, widenBehind, later]
      | token spaced byte =>
          rcases laid with ⟨⟨visible, special⟩, laidRest⟩
          have notSpace : space ≠ byte := by
            rintro rfl
            cases visible
          have notNewline : newline ≠ byte := by
            rintro rfl
            cases visible
          have later : ∀ front, widenBehind (byte :: front) (render rest) =
              render (settle false rest) := by
            intro front
            have tail := @induction (byte :: front) _ laidRest
              (by simp [notSpace]) (by simp [notNewline])
            simpa [notSpace] using tail
          cases spaced with
          | true =>
              have inner : ¬[space, newline, colon] <+: space :: behind := by
                simpa using whole
              simp [Cell.text, Cell.settle, Cell.isColon, widenBehind, inner, later]
          | false =>
              by_cases afterColon : [space, newline, colon] <+: behind
              · have ordinary : isSpecial byte = false := by
                  rw [Bool.eq_false_iff]
                  intro isSpecial
                  simp [apart afterColon] at special
                  simp [special] at isSpecial
                have free : byte ∉ [space, semicolon, colon, newline] := by
                  simp only [List.mem_cons, List.not_mem_nil, or_false, not_or]
                  refine ⟨Ne.symm notSpace, ?_, ?_, Ne.symm notNewline⟩ <;>
                    (rintro rfl; cases ordinary)
                simp [Cell.text, Cell.settle, Cell.isColon, widenBehind, afterColon, free, later]
              · simp [Cell.text, Cell.settle, Cell.isColon, widenBehind, afterColon, later]

/-! ## Fragile texts -/

def FragileAt (quoted : Bool) (text : Bytes) : Prop :=
  if quoted then [semicolon, newline, newline] <+: text ∨ [colon, newline, space] <+: text
  else [slash, star] <+: text

def FragileFrom : Bool → Bytes → Prop
  | _, [] => False
  | quoted, byte :: rest => FragileAt quoted (byte :: rest) ∨ FragileFrom (byte == quote) rest

def quotedBehind (quoted : Bool) (before : Bytes) : Bool :=
  (before.getLast?.map (· == quote)).getD quoted

private theorem quotedBehind_cons (quoted : Bool) (byte : UInt8) (before : Bytes) :
    quotedBehind quoted (byte :: before) = quotedBehind (byte == quote) before := by
  rw [quotedBehind, quotedBehind, List.getLast?_cons]
  cases before.getLast? <;> rfl

theorem fragileFrom_iff {quoted : Bool} {text : Bytes} :
    FragileFrom quoted text ↔
      ∃ before after, text = before ++ after ∧ FragileAt (quotedBehind quoted before) after := by
  induction text generalizing quoted with
  | nil =>
      constructor
      · exact False.elim
      · rintro ⟨before, after, empty, fragile⟩
        rcases List.append_eq_nil_iff.mp empty.symm with ⟨rfl, rfl⟩
        cases quoted <;> simp [FragileAt, quotedBehind] at fragile
  | cons byte rest induction =>
      constructor
      · rintro (here | later)
        · exact ⟨[], byte :: rest, rfl, here⟩
        · rcases induction.mp later with ⟨before, after, rfl, fragile⟩
          exact ⟨byte :: before, after, rfl, (quotedBehind_cons ..).symm ▸ fragile⟩
      · rintro ⟨_ | ⟨first, before⟩, after, split, fragile⟩
        · rw [List.nil_append] at split
          subst after
          exact .inl fragile
        · rcases List.cons_eq_cons.mp split with ⟨rfl, rfl⟩
          rw [quotedBehind_cons] at fragile
          exact .inr (induction.mpr ⟨before, after, rfl, fragile⟩)

private theorem quotedBehind_false {before : Bytes} :
    quotedBehind false before = true ↔ before.getLast? = some quote := by
  unfold quotedBehind
  cases before.getLast? <;> simp

theorem fragile_iff {text : Bytes} : Fragile text ↔ FragileFrom false text := by
  rw [fragileFrom_iff]
  constructor
  · rintro (⟨before, after, rfl⟩ | ⟨before, after, rfl⟩ | ⟨before, after, rfl, free⟩)
    · refine ⟨before ++ [quote], [semicolon, newline, newline] ++ after, by simp, ?_⟩
      have quoted : quotedBehind false (before ++ [quote]) = true := by simp [quotedBehind]
      simp [FragileAt, quoted]
    · refine ⟨before ++ [quote], [colon, newline, space] ++ after, by simp, ?_⟩
      have quoted : quotedBehind false (before ++ [quote]) = true := by simp [quotedBehind]
      simp [FragileAt, quoted]
    · refine ⟨before, [slash, star] ++ after, by simp, ?_⟩
      have live : quotedBehind false before = false :=
        Bool.eq_false_iff.mpr (mt quotedBehind_false.mp free)
      simp [FragileAt, live]
  · rintro ⟨before, after, rfl, fragile⟩
    cases quoted : quotedBehind false before with
    | true =>
        rcases List.getLast?_eq_some_iff.mp (quotedBehind_false.mp quoted) with ⟨front, rfl⟩
        simp only [FragileAt, quoted, if_true] at fragile
        rcases fragile with ⟨tail, rfl⟩ | ⟨tail, rfl⟩
        · exact .inl ⟨front, tail, by simp⟩
        · exact .inr (.inl ⟨front, tail, by simp⟩)
    | false =>
        simp only [FragileAt, quoted, Bool.false_eq_true, if_false] at fragile
        rcases fragile with ⟨tail, rfl⟩
        refine .inr (.inr ⟨before, tail, by simp, fun last => ?_⟩)
        simp [quotedBehind_false.mpr last] at quoted

theorem not_prefix_render {cells : List Cell} {quoted : Bool} (laid : LaidOut quoted cells)
    (byte : UInt8) (other : byte ≠ bar) : ¬[newline, byte] <+: render cells := by
  rcases cells with _ | ⟨_ | _ | _ | ⟨_ | _, token⟩, rest⟩
  case nil => simp
  case cons.bar => simpa [Cell.text] using other
  case cons.token.false =>
    intro starts
    have same : newline = token := (List.cons_prefix_cons.mp starts).1
    rw [← same] at laid
    cases laid.1.1
  all_goals simp +decide [Cell.text]

theorem firm_iff {cells : List Cell} {quoted : Bool} (laid : LaidOut quoted cells) :
    Firm quoted cells ↔ ¬FragileFrom quoted (render cells) := by
  induction cells generalizing quoted with
  | nil => simp [Firm, FragileFrom]
  | cons cell rest induction =>
      have live : (newline == quote) = false ∧ (space == quote) = false ∧
          (bar == quote) = false := ⟨rfl, rfl, rfl⟩
      rw [Firm, induction laid.2]
      cases cell with
      | token spaced byte =>
          have noBreak := not_prefix_render laid.2 newline (by decide)
          have noGap := not_prefix_render laid.2 space (by decide)
          have ahead : [star] <+: render rest ↔ rest.head? = some (.token false star) :=
            List.singleton_prefix_iff_head?_eq_some.trans head?_render_iff
          cases spaced <;> cases quoted <;>
            simp +decide [Cell.Firm, Cell.text, Cell.endsInQuote, FragileFrom, FragileAt,
              noBreak, noGap, ahead, @eq_comm _ slash byte]
      | _ =>
          cases quoted <;>
            simp +decide [Cell.Firm, Cell.text, Cell.endsInQuote, FragileFrom, FragileAt,
              live]

/-! ## What a second layout can put at most -/

def visible (text : Bytes) : Nat := text.countP (· != space)

@[simp] theorem visible_append (first second : Bytes) :
    visible (first ++ second) = visible first + visible second := by
  simp [visible]

/-- What a layout puts for a byte at most, whatever the depth. -/
def byteWeight (quoted : Bool) (byte : UInt8) (next : Option UInt8) : Nat :=
  if byte == slash && !quoted && next == some star then 0
  else
    match if quoted then none else separatorCell? byte with
    | some cell => visible cell.text
    | none => if isSpace byte then 0 else 1

def weight (quoted : Bool) : Bytes → Nat
  | [] => 0
  | byte :: rest => byteWeight quoted byte rest.head? + weight (byte == quote) rest

private theorem visible_cell?_le {position : Position} {byte : UInt8} {next : Option UInt8}
    (ordinary : position.opensComment byte next = false) :
    visible (render (cell? position.cursor.nesting position.previous byte).toList) ≤
      byteWeight position.cursor.nesting.quoted byte next := by
  have token : visible (render (if isSpace byte then none
      else some (.token (isBlank position.previous) byte) : Option Cell).toList) ≤
      if isSpace byte then 0 else 1 := by
    cases isSpace byte <;> cases isBlank position.previous <;>
      simp [visible, Cell.text, List.countP_cons] <;> split <;> decide
  rw [byteWeight, ← Position.opensComment, ordinary, cell?]
  split
  · cases separates : if position.cursor.nesting.quoted then none else separatorCell? byte with
    | none => simpa using token
    | some cell => simp
  · simp [visible]

theorem visible_output_le {settings : Settings} (lenient : settings.strict = false) :
    ∀ (position : Position) (rest : Bytes),
      visible ((scanner settings).trace rest position).output ≤
        weight position.cursor.nesting.quoted rest := by
  intro position rest
  induction position, rest using reading_induction with
  | finish position => exact Nat.le_refl 0
  | close position later inside induction =>
      rw [trace_close settings inside, weight, weight]
      refine Nat.le_trans induction ?_
      exact Nat.le_trans (Nat.le_add_left _ _) (Nat.le_add_left _ _)
  | skip position byte rest inside going induction =>
      rw [trace_skip settings inside going, weight]
      exact Nat.le_trans induction (Nat.le_add_left _ _)
  | enter position later outside live induction =>
      rw [trace_open settings outside live, weight, weight]
      refine Nat.le_trans induction ?_
      exact Nat.le_trans (Nat.le_add_left _ _) (Nat.le_add_left _ _)
  | read position byte rest outside ordinary induction =>
      rw [Position.nesting_read, Nesting.quoted_read] at induction
      rw [trace_read_of_lenient lenient outside ordinary, Scanner.Trace.output_after,
        flatten_chunks, visible_append, weight]
      exact Nat.add_le_add (visible_cell?_le ordinary) induction

private theorem byteWeight_space {byte : UInt8} (gap : isSpace byte = true) (quoted : Bool)
    (next : Option UInt8) : byteWeight quoted byte next = 0 := by
  have notSlash : byte ≠ slash := ne_of_isSpace gap rfl
  have notSeparator : separatorCell? byte = none := by
    simpa [separator?_eq] using separator?_of_space gap
  simp [byteWeight, notSlash, notSeparator, gap]

private theorem byteWeight_separator {byte : UInt8} {cell : Cell}
    (separates : separatorCell? byte = some cell) (quoted : Bool) (next : Option UInt8) :
    byteWeight quoted byte next = if quoted then 1 else visible cell.text := by
  rcases separatorCell?_cases separates with ⟨rfl, rfl⟩ | ⟨rfl, rfl⟩ | ⟨rfl, rfl⟩ <;>
    cases quoted <;> rfl

private theorem byteWeight_token {byte : UInt8} {quoted : Bool} (visible : isSpace byte = false)
    (special : isSpecial byte = true → quoted = true) (next : Option UInt8) :
    byteWeight quoted byte next =
      if byte == slash && !quoted && next == some star then 0 else 1 := by
  have notSeparator : (if quoted then none else separatorCell? byte) = none := by
    cases quoted with
    | true => rfl
    | false =>
        have plain : isSpecial byte = false := by simpa using special
        simpa [isSpecial, separator?_eq] using (Bool.or_eq_false_iff.mp plain).2
  simp [byteWeight, notSeparator, visible]

private theorem weight_space {byte : UInt8} (gap : isSpace byte = true) (quoted : Bool)
    (rest : Bytes) : weight quoted (byte :: rest) = weight false rest := by
  have notQuote : (byte == quote) = false :=
    beq_eq_false_iff_ne.mpr (ne_of_isSpace gap rfl)
  rw [weight, byteWeight_space gap, Nat.zero_add, notQuote]

private theorem weight_cell {cell : Cell} {quoted : Bool} {cells : List Cell}
    (fits : cell.Fits quoted) :
    ∃ own, weight quoted (cell.text ++ render cells) =
        own + weight cell.endsInQuote (render cells) ∧
      own ≤ visible cell.text ∧ (visible cell.text ≤ own → cell.Firm quoted cells.head?) := by
  cases cell with
  | semicolon =>
      refine ⟨byteWeight quoted semicolon (some newline), ?_, ?_, ?_⟩
      · rw [Cell.text, List.cons_append, weight, List.cons_append, weight_space rfl,
          List.cons_append, weight_space rfl]
        rfl
      · cases quoted <;> decide
      · cases quoted <;> simp +decide [Cell.Firm]
  | colon =>
      refine ⟨byteWeight quoted colon (some newline), ?_, ?_, ?_⟩
      · rw [Cell.text, List.cons_append, weight, List.cons_append, weight_space rfl,
          List.cons_append, weight_space rfl]
        rfl
      · cases quoted <;> decide
      · cases quoted <;> simp +decide [Cell.Firm]
  | bar =>
      refine ⟨byteWeight false bar (render cells).head?, ?_, ?_, fun _ => trivial⟩
      · rw [Cell.text, List.cons_append, weight_space rfl]
        rfl
      · rw [byteWeight_separator rfl]
        exact Nat.le_refl _
  | token spaced byte =>
      rcases fits with ⟨shown, special⟩
      have notSpace : byte ≠ space := by
        rintro rfl
        cases shown
      have one : visible (Cell.token spaced byte).text = 1 := by
        cases spaced <;> simp [visible, Cell.text, notSpace]
      have live : isSpecial byte = true → (quoted && !spaced) = true := by
        intro isSpecial
        rcases special isSpecial with ⟨isQuoted, tight⟩
        rw [isQuoted, tight]
        rfl
      refine ⟨byteWeight (quoted && !spaced) byte (render cells).head?, ?_, ?_, ?_⟩
      · cases spaced with
        | false =>
            rw [Bool.not_false, Bool.and_true]
            rfl
        | true =>
            rw [Cell.text, List.cons_append, weight_space rfl, Bool.not_true, Bool.and_false]
            rfl
      · rw [one, byteWeight_token shown live]
        split <;> decide
      · rw [one, byteWeight_token shown live]
        intro full isSlash unquoted starts
        simp [isSlash, unquoted, head?_render_iff.mpr starts] at full

/-- Laid-out cells weigh at most what they show, and less if they are not
firm. -/
theorem weight_render {cells : List Cell} {quoted : Bool} (laid : LaidOut quoted cells) :
    weight quoted (render cells) ≤ visible (render cells) ∧
      (visible (render cells) ≤ weight quoted (render cells) → Firm quoted cells) := by
  induction cells generalizing quoted with
  | nil => exact ⟨Nat.le_refl 0, fun _ => trivial⟩
  | cons cell rest induction =>
      rcases weight_cell laid.1 with ⟨own, total, bound, firm⟩
      rcases induction laid.2 with ⟨boundRest, firmRest⟩
      rw [render_cons, visible_append, total]
      exact ⟨by omega, fun full => ⟨firm (by omega), firmRest (by omega)⟩⟩

/-! ## Layouts of layouts -/

theorem layOut_eq (topLevelMarker : Bool) (source : Bytes) :
    layOut topLevelMarker source =
      ((scanner { topLevelMarker }).trace source {}).output := by
  rw [layOut, inMemory_run]
  rfl

theorem layOut_ok (topLevelMarker : Bool) (source : Bytes) :
    ∃ tally, Outlet.inMemory (Rules.run · { topLevelMarker } source) =
      (.ok tally, layOut topLevelMarker source) := by
  rcases @result_of_lenient { topLevelMarker } rfl source with ⟨tally, ok⟩
  refine ⟨tally, ?_⟩
  rw [layOut, inMemory_run, ok]

theorem layOut_render (topLevelMarker : Bool) {cells : List Cell} (laid : LaidOut false cells)
    (firm : Firm false cells) :
    layOut topLevelMarker (render cells) = render (settle false cells) := by
  rw [layOut_eq]
  exact output_render rfl cells {} ⟨rfl, rfl⟩ laid firm

theorem visible_layOut_le (topLevelMarker : Bool) (source : Bytes) :
    visible (layOut topLevelMarker source) ≤ weight false source := by
  rw [layOut_eq]
  exact visible_output_le rfl {} source

/-- A layout of a layout shows the same bytes, spaces apart, exactly when the
first one is not fragile. Then it only widens colon layouts, and after it nothing
changes any more. -/
theorem layOut_twice (topLevelMarker : Bool) (source : Bytes) :
    let once := layOut topLevelMarker source
    let twice := layOut topLevelMarker once
    (∀ text, ∃ tally, Outlet.inMemory (Rules.run · { topLevelMarker } text) =
        (.ok tally, layOut topLevelMarker text)) ∧
      (once.filter (· != space) = twice.filter (· != space) ↔ ¬Fragile once) ∧
      (¬Fragile once → twice = widen once ∧ layOut topLevelMarker twice = twice) := by
  intro once twice
  refine ⟨layOut_ok topLevelMarker, ?_⟩
  rcases @exists_cells { topLevelMarker } rfl {} source false
    Position.steady_initial (fun _ _ live => live) with ⟨cells, laid, put⟩
  have onceEq : once = render cells := (layOut_eq topLevelMarker source).trans put
  have firmIff : Firm false cells ↔ ¬Fragile once := by
    rw [firm_iff laid, fragile_iff, onceEq]
  have settled : Firm false cells → twice = render (settle false cells) := by
    intro firm
    change layOut topLevelMarker once = _
    rw [onceEq, layOut_render topLevelMarker laid firm]
  refine ⟨⟨?_, ?_⟩, ?_⟩
  · intro same
    have equal : visible once = visible twice := by
      rw [visible, visible, List.countP_eq_length_filter, List.countP_eq_length_filter, same]
    have bound : visible twice ≤ weight false once := visible_layOut_le topLevelMarker once
    rw [onceEq] at equal bound
    exact firmIff.mp ((weight_render laid).2 (equal ▸ bound))
  · intro sound
    rw [settled (firmIff.mpr sound), onceEq, filter_render_settle]
  · intro sound
    have firm := firmIff.mpr sound
    have still : false = true → false = false := fun _ => rfl
    constructor
    · rw [settled firm, onceEq, widen, widenBehind_render laid (by simp) (by simp)]
      rfl
    · rw [settled firm, layOut_render topLevelMarker (laidOut_settle still laid)
        (firm_settle still firm), settle_settle]

end GrammarTidy.Rules
