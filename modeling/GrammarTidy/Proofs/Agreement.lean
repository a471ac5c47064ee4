import GrammarTidy.Proofs.Comments
import GrammarTidy.Proofs.DeclarationsReading

/-! Hollowing and tidying agree on what a block is: a text that was hollowed
first is tidied to the same bytes. The three scans are followed in step, over a
text and over its hollowed form. -/

namespace GrammarTidy

open Byte

/-! ## Hollowed texts -/

/-- A text with its blocks hollowed, from a nesting on. -/
def hollowed : Nesting → Bytes → Bytes
  | _, [] => []
  | nesting, byte :: rest =>
      if Hollow.keeps nesting byte then byte :: hollowed (nesting.read byte) rest
      else hollowed (nesting.read byte) rest

theorem Hollow.output_eq_hollowed {settings : Settings} (lenient : settings.strict = false) :
    ∀ (rest : Bytes) (cursor : Cursor),
      ((Hollow.scanner settings).trace rest cursor).output = hollowed cursor.nesting rest := by
  intro rest
  induction rest with
  | nil =>
      intro cursor
      rfl
  | cons byte rest induction =>
      intro cursor
      have move : (Hollow.scanner settings).move cursor byte rest.head? =
          .one (if Hollow.keeps cursor.nesting byte then [[byte]] else [])
            (cursor.read byte) := by
        simp [Hollow.scanner, lenient]
      rw [Scanner.trace, move]
      dsimp only
      rw [Scanner.Trace.output_after, induction, Cursor.nesting_read, hollowed]
      split <;> rfl

/-- The depth stays at zero or above over every part of a text read from a
nesting. -/
def Balanced (nesting : Nesting) (text : Bytes) : Prop :=
  ∀ length ≤ text.length, 0 ≤ ((text.take length).foldl Nesting.read nesting).depth

instance (nesting : Nesting) (text : Bytes) : Decidable (Balanced nesting text) :=
  inferInstanceAs (Decidable (∀ length ≤ text.length, _))

theorem Balanced.depth_nonneg {nesting : Nesting} {text : Bytes}
    (balanced : Balanced nesting text) : 0 ≤ nesting.depth :=
  balanced 0 (Nat.zero_le _)

theorem Balanced.tail {nesting : Nesting} {byte : UInt8} {rest : Bytes}
    (balanced : Balanced nesting (byte :: rest)) : Balanced (nesting.read byte) rest := by
  intro length within
  exact balanced (length + 1) (Nat.succ_le_succ within)

/-! ## The nesting in a hollowed text -/

/-- Where the scan of the hollowed text stands when the scan that makes it stands at
a nesting: one deep inside all blocks, and at zero outside and below. Of the quotes,
only those at depth zero are kept. -/
def Nesting.clamp (nesting : Nesting) : Nesting where
  depth := if 0 < nesting.depth then 1 else 0
  quoted := nesting.quoted && nesting.depth = 0

namespace Nesting

section Clamp

variable {nesting : Nesting} {byte : UInt8}

theorem clamp_of_zero (zero : nesting.depth = 0) : nesting.clamp = nesting := by
  cases nesting
  simp_all [clamp]

theorem clamp_of_live (live : nesting.quoted = false) :
    nesting.clamp = { depth := if 0 < nesting.depth then 1 else 0 } := by
  rw [clamp, live]
  rfl

theorem clamp_of_ne (inner : nesting.depth ≠ 0) :
    nesting.clamp = { depth := if 0 < nesting.depth then 1 else 0 } := by
  simp [clamp, inner]

theorem read_of_isLineBreak (nesting : Nesting) (breaks : isLineBreak byte = true) :
    nesting.role byte = .plain ∧ nesting.read byte = { depth := nesting.depth } := by
  have plain : nesting.role byte = .plain := by
    apply nesting.role_of_space
    rw [isSpace, breaks, Bool.or_true]
  have notQuote : (byte == quote) = false := by
    rw [beq_eq_false_iff_ne]
    rintro rfl
    cases breaks
  rw [read_of_plain plain, notQuote]
  exact ⟨plain, rfl⟩

theorem keeps_clamp (keeps : Hollow.keeps nesting byte = true) :
    Hollow.keeps nesting.clamp byte = true ∧
      nesting.clamp.read byte = (nesting.read byte).clamp := by
  by_cases zero : nesting.depth = 0
  · rw [clamp_of_zero zero]
    apply And.intro keeps
    cases role : nesting.role byte with
    | opening =>
        rw [read_of_opening role, (role_eq_opening_iff.mp role).2, zero]
        rfl
    | closing =>
        rw [Hollow.keeps, role] at keeps
        cases zero.symm.trans (of_decide_eq_true keeps)
    | plain =>
        rw [clamp_of_zero]
        rw [read_of_plain role, zero]
  · rw [clamp_of_ne zero]
    cases role : nesting.role byte with
    | opening =>
        rw [Hollow.keeps, role] at keeps
        exact absurd (of_decide_eq_true keeps) zero
    | closing =>
        rw [Hollow.keeps, role] at keeps
        rw [read_of_closing role, (role_eq_closing_iff.mp role).2, of_decide_eq_true keeps]
        exact ⟨rfl, rfl⟩
    | plain =>
        have breaks : isLineBreak byte = true := by
          simpa [Hollow.keeps, role, zero] using keeps
        rw [(nesting.read_of_isLineBreak breaks).2, (read_of_isLineBreak _ breaks).2,
          Hollow.keeps, (read_of_isLineBreak _ breaks).1, breaks, Bool.or_true]
        exact ⟨rfl, (@clamp_of_live { depth := nesting.depth } rfl).symm⟩

theorem clamp_read_of_drops (drops : Hollow.keeps nesting byte = false) :
    (nesting.read byte).clamp = nesting.clamp := by
  unfold Hollow.keeps at drops
  cases role : nesting.role byte with
  | opening =>
      rw [role] at drops
      have inner : nesting.depth ≠ 0 := of_decide_eq_false drops
      have same : 0 < nesting.depth + 1 ↔ 0 < nesting.depth := by omega
      rw [read_of_opening role, (role_eq_opening_iff.mp role).2, clamp_of_live rfl,
        clamp_of_ne inner]
      simp only [same]
  | closing =>
      rw [role] at drops
      have outer : nesting.depth ≠ 1 := of_decide_eq_false drops
      have same : 0 < nesting.depth - 1 ↔ 0 < nesting.depth := by omega
      rcases role_eq_closing_iff.mp role with ⟨live, rfl⟩
      rw [read_of_closing role, clamp_of_live rfl, clamp_of_live live]
      simp only [same]
  | plain =>
      rw [role, Bool.or_eq_false_iff] at drops
      have inner : nesting.depth ≠ 0 := of_decide_eq_false drops.1
      rw [clamp_of_ne inner, read_of_plain role]
      exact @clamp_of_ne { depth := nesting.depth, quoted := byte == quote } inner

end Clamp

end Nesting

/-- The nesting in the hollowed text, at the byte that stands for the byte to
come: all depths inside blocks have become one. -/
def Nesting.shadow (nesting : Nesting) : Nesting :=
  if nesting.depth = 0 then nesting else { depth := 1 }

namespace Nesting

theorem shadow_of_zero {nesting : Nesting} (zero : nesting.depth = 0) :
    nesting.shadow = nesting := if_pos zero

theorem shadow_of_ne {nesting : Nesting} (inner : nesting.depth ≠ 0) :
    nesting.shadow = { depth := 1 } := if_neg inner

theorem keeps_iff {nesting : Nesting} {byte : UInt8} (above : 0 ≤ nesting.depth)
    (later : 0 ≤ (nesting.read byte).depth) :
    Hollow.keeps nesting byte = true ↔
      nesting.depth = 0 ∨ isLineBreak byte = true ∨ (nesting.read byte).depth = 0 := by
  unfold Hollow.keeps
  cases role : nesting.role byte with
  | opening =>
      have solid : isLineBreak byte = false := by
        rw [(role_eq_opening_iff.mp role).2]
        rfl
      rw [read_of_opening role]
      simp only [decide_eq_true_eq, solid, Bool.false_eq_true, false_or]
      omega
  | closing =>
      have solid : isLineBreak byte = false := by
        rw [(role_eq_closing_iff.mp role).2]
        rfl
      rw [read_of_closing role] at later ⊢
      simp only [decide_eq_true_eq, solid, Bool.false_eq_true, false_or] at later ⊢
      omega
  | plain =>
      rw [read_of_plain role]
      simp only [Bool.or_eq_true, decide_eq_true_eq]
      constructor
      · rintro (zero | breaks)
        · exact .inl zero
        · exact .inr (.inl breaks)
      · rintro (zero | breaks | zero)
        · exact .inl zero
        · exact .inr breaks
        · exact .inl zero

theorem shadow_eq_clamp {nesting : Nesting} (above : 0 ≤ nesting.depth) :
    nesting.shadow = nesting.clamp := by
  by_cases zero : nesting.depth = 0
  · rw [shadow_of_zero zero, clamp_of_zero zero]
  · have positive : 0 < nesting.depth := by omega
    rw [shadow_of_ne zero, clamp_of_ne zero, if_pos positive]

theorem shadow_read_of_drops {nesting : Nesting} {byte : UInt8} (above : 0 ≤ nesting.depth)
    (later : 0 ≤ (nesting.read byte).depth) (drops : Hollow.keeps nesting byte = false) :
    (nesting.read byte).shadow = nesting.shadow := by
  rw [shadow_eq_clamp above, shadow_eq_clamp later, clamp_read_of_drops drops]

theorem shadow_read_of_keeps {nesting : Nesting} {byte : UInt8} (above : 0 ≤ nesting.depth)
    (later : 0 ≤ (nesting.read byte).depth) (keeps : Hollow.keeps nesting byte = true) :
    nesting.shadow.read byte = (nesting.read byte).shadow := by
  rw [shadow_eq_clamp above, shadow_eq_clamp later, (keeps_clamp keeps).2]

end Nesting

/-! ## The declarations of a hollowed text -/

namespace Declarations

variable {settings : Settings}

theorem isMarkerHalf_iff (topLevel : settings.topLevelMarker = true) {nesting : Nesting}
    {byte : UInt8} :
    isMarkerHalf settings nesting byte = true ↔
      byte = percent ∧ nesting.quoted = false ∧ nesting.depth = 0 := by
  simp [isMarkerHalf, topLevel]

theorem isMarkerHalf_shadow (topLevel : settings.topLevelMarker = true) (nesting : Nesting)
    (byte : UInt8) :
    isMarkerHalf settings nesting.shadow byte = isMarkerHalf settings nesting byte := by
  by_cases zero : nesting.depth = 0
  · rw [Nesting.shadow_of_zero zero]
  · rw [Nesting.shadow_of_ne zero]
    simp [isMarkerHalf, topLevel, zero]

private theorem kept_shadow (nesting : Nesting) (byte : UInt8) :
    kept nesting.shadow byte = kept nesting byte := by
  by_cases zero : nesting.depth = 0
  · rw [Nesting.shadow_of_zero zero]
  · rw [Nesting.shadow_of_ne zero]
    simp [kept, keeps, zero]

/-- A position in a text and one in its hollowed form that stand for each
other. -/
structure InStep (position shadow : Position) : Prop where
  nesting : shadow.cursor.nesting = position.cursor.nesting.shadow
  percent : shadow.afterPercent = position.afterPercent
  closed : position.cursor.nesting.depth ≠ 0 → position.afterPercent = false
  unmarked : position.rulesStart = none ∧ shadow.rulesStart = none

variable {position shadow : Position} {byte : UInt8}

private theorem closed_read (topLevel : settings.topLevelMarker = true) (position : Position)
    (byte : UInt8) (inner : (position.read settings byte).cursor.nesting.depth ≠ 0) :
    (position.read settings byte).afterPercent = false := by
  rw [Bool.eq_false_iff]
  intro half
  rcases (isMarkerHalf_iff topLevel).mp half with ⟨rfl, -, zero⟩
  have plain : position.cursor.nesting.role percent = .plain :=
    Nesting.role_of_not_brace _ (by decide) (by decide)
  apply inner
  simp [Position.read, Nesting.read_of_plain plain, zero]

private theorem InStep.keep (topLevel : settings.topLevelMarker = true)
    (step : InStep position shadow) (above : 0 ≤ position.cursor.nesting.depth)
    (later : 0 ≤ (position.cursor.nesting.read byte).depth)
    (holds : Hollow.keeps position.cursor.nesting byte = true) :
    InStep (position.read settings byte) (shadow.read settings byte) where
  nesting := by
    simp [Position.read, step.nesting, Nesting.shadow_read_of_keeps above later holds]
  percent := by
    simp [Position.read, step.nesting, isMarkerHalf_shadow topLevel]
  closed := closed_read topLevel position byte
  unmarked := step.unmarked

private theorem InStep.drop (topLevel : settings.topLevelMarker = true)
    (step : InStep position shadow) (above : 0 ≤ position.cursor.nesting.depth)
    (later : 0 ≤ (position.cursor.nesting.read byte).depth)
    (drops : Hollow.keeps position.cursor.nesting byte = false) :
    InStep (position.read settings byte) shadow ∧
      position.endsMarker settings byte = false ∧ kept position.cursor.nesting byte = [] := by
  have inner : position.cursor.nesting.depth ≠ 0 := fun zero => by
    simp [(Nesting.keeps_iff above later).mpr (.inl zero)] at drops
  have notHalf : isMarkerHalf settings position.cursor.nesting byte = false := by
    simp [isMarkerHalf, topLevel, inner]
  refine ⟨⟨?_, ?_, closed_read topLevel position byte, step.unmarked⟩, ?_, ?_⟩
  · simp [Position.read, step.nesting, Nesting.shadow_read_of_drops above later drops]
  · rw [step.percent, step.closed inner]
    exact notHalf.symm
  · simp [Position.endsMarker, notHalf]
  · simp [kept, keeps, inner]

theorem hollowed_output (lenient : settings.strict = false)
    (topLevel : settings.topLevelMarker = true) :
    ∀ (rest : Bytes) (position shadow : Position), InStep position shadow →
      Balanced position.cursor.nesting rest →
      ((scanner settings).trace (hollowed position.cursor.nesting rest) shadow).output =
          ((scanner settings).trace rest position).output ∧
        ∃ last shadowLast unread,
          ((scanner settings).trace rest position).ending = .finished last unread ∧
          ((scanner settings).trace (hollowed position.cursor.nesting rest) shadow).ending =
            .finished shadowLast (hollowed {} unread) ∧
          last.rulesStart.isSome = shadowLast.rulesStart.isSome ∧
          Balanced {} unread := by
  intro rest
  induction rest with
  | nil =>
      intro position shadow step balanced
      refine ⟨rfl, position, shadow, [], rfl, rfl, ?_, ?_⟩
      · rw [step.unmarked.1, step.unmarked.2]
      · intro length within
        rw [List.take_nil]
        exact Int.le_refl 0
  | cons byte rest induction =>
      intro position shadow step balanced
      have above := balanced.depth_nonneg
      have later := balanced.tail.depth_nonneg
      have nestingAfter : (position.read settings byte).cursor.nesting =
          position.cursor.nesting.read byte := by
        simp [Position.read]
      cases holds : Hollow.keeps position.cursor.nesting byte with
      | false =>
          rcases step.drop topLevel above later holds with ⟨stepAfter, goes, nothing⟩
          have rest := induction _ shadow stepAfter (nestingAfter ▸ balanced.tail)
          rw [nestingAfter] at rest
          rw [output_cons lenient, ending_cons_of_lenient lenient, hollowed, holds, goes, nothing]
          exact rest
      | true =>
          have ends : shadow.endsMarker settings byte = position.endsMarker settings byte := by
            simp [Position.endsMarker, step.nesting, isMarkerHalf_shadow topLevel,
              step.percent]
          rw [hollowed, if_pos holds, output_cons lenient, output_cons lenient,
            ending_cons_of_lenient lenient, ending_cons_of_lenient lenient, ends,
            step.nesting, kept_shadow]
          cases marks : position.endsMarker settings byte with
          | true =>
              have fresh : position.cursor.nesting.read byte = {} := by
                rcases (isMarkerHalf_iff topLevel).mp (Bool.and_eq_true_iff.mp marks).1 with
                  ⟨rfl, -, zero⟩
                rw [Nesting.read_of_plain
                  (Nesting.role_of_not_brace _ (by decide) (by decide)), zero]
                rfl
              have tail := balanced.tail
              rw [fresh] at tail ⊢
              exact ⟨rfl, _, _, rest, rfl, rfl, rfl, tail⟩
          | false =>
              have rest := induction _ _ (step.keep topLevel above later holds)
                (nestingAfter ▸ balanced.tail)
              rw [nestingAfter] at rest
              exact ⟨congrArg _ rest.1, rest.2⟩

end Declarations

/-! ## The rules of a hollowed text -/

namespace Rules

/-- No live brace stands in a comment. -/
def BracesShow (text : Bytes) : Prop :=
  ∀ position, inComment text position = true →
    text[position]? = some openBrace ∨ text[position]? = some closeBrace →
    quotedAt text position = true

theorem bracesShow_iff (text : Bytes) :
    BracesShow text ↔ ∀ position < text.length, inComment text position = true →
      text[position]? = some openBrace ∨ text[position]? = some closeBrace →
      quotedAt text position = true := by
  constructor
  · intro shows position _
    exact shows position
  · intro shows position inside brace
    apply shows position _ inside brace
    rcases brace with here | here
    · exact (List.getElem?_eq_some_iff.mp here).1
    · exact (List.getElem?_eq_some_iff.mp here).1

instance (text : Bytes) : Decidable (BracesShow text) :=
  decidable_of_iff _ (bracesShow_iff text).symm

/-- A position in a text and one in its hollowed form that stand for each other.
Inside blocks the hollowed form has no comments. -/
structure InStep (position shadow : Position) : Prop where
  nesting : shadow.cursor.nesting = position.cursor.nesting.shadow
  outer : position.cursor.nesting.depth = 0 →
    shadow.previous = position.previous ∧ shadow.comment.isSome = position.comment.isSome
  inner : position.cursor.nesting.depth ≠ 0 → shadow.comment = none

variable {settings : Settings} {position next shadow : Position} {byte : UInt8}
  {rest : Bytes}

theorem InStep.inner_step (lenient : settings.strict = false) (step : InStep position shadow)
    (inner : position.cursor.nesting.depth ≠ 0)
    (balanced : Balanced position.cursor.nesting (byte :: rest))
    (nesting : next.cursor.nesting = position.cursor.nesting.read byte)
    (previous : next.previous = byte)
    (back : next.cursor.nesting.depth = 0 → next.comment = none) :
    ∃ shadowNext, InStep next shadowNext ∧
      ((scanner settings).trace (hollowed position.cursor.nesting (byte :: rest))
          shadow).output =
        ((scanner settings).trace (hollowed next.cursor.nesting rest) shadowNext).output := by
  have above := balanced.depth_nonneg
  have later := balanced.tail.depth_nonneg
  have outside := step.inner inner
  cases holds : Hollow.keeps position.cursor.nesting byte with
  | false =>
      refine ⟨shadow, ⟨?_, ?_, fun _ => outside⟩, ?_⟩
      · rw [nesting, Nesting.shadow_read_of_drops above later holds, step.nesting]
      · intro zero
        rw [nesting] at zero
        simp [(Nesting.keeps_iff above later).mpr (.inr (.inr zero))] at holds
      · rw [hollowed, holds, nesting]
        rfl
  | true =>
      have notSlash : byte ≠ slash := by
        rintro rfl
        have plain : position.cursor.nesting.role slash = .plain :=
          Nesting.role_of_not_brace _ (by decide) (by decide)
        simp [Hollow.keeps, plain, inner] at holds
        cases holds
      have ordinary : shadow.opensComment byte
          (hollowed (position.cursor.nesting.read byte) rest).head? = false :=
        shadow.opensComment_of_ne notSlash _
      have shadowInner : shadow.cursor.nesting.depth ≠ 0 := by
        rw [step.nesting, Nesting.shadow_of_ne inner]
        decide
      refine ⟨shadow.read byte, ⟨?_, ?_, fun _ => outside⟩, ?_⟩
      · rw [nesting, ← Nesting.shadow_read_of_keeps above later holds, ← step.nesting,
          Position.nesting_read]
      · intro zero
        refine ⟨previous.symm, ?_⟩
        rw [back zero, ← outside]
        rfl
      · rw [hollowed, if_pos holds, trace_read_of_lenient lenient outside ordinary,
          chunks_of_inner shadowInner, nesting]
        rfl

theorem hollowed_of_outer {nesting : Nesting} (zero : nesting.depth = 0)
    (balanced : Balanced nesting (byte :: rest)) :
    hollowed nesting (byte :: rest) = byte :: hollowed (nesting.read byte) rest := by
  rw [hollowed, if_pos]
  exact (Nesting.keeps_iff balanced.depth_nonneg balanced.tail.depth_nonneg).mpr (.inl zero)

private theorem head?_hollowed {nesting : Nesting} (zero : nesting.depth = 0)
    (balanced : Balanced nesting rest) : (hollowed nesting rest).head? = rest.head? := by
  cases rest with
  | nil => rfl
  | cons byte rest => rw [hollowed_of_outer zero balanced]; rfl

theorem nesting_skip (plain : position.cursor.nesting.role byte = .plain) :
    (position.skip byte).cursor.nesting = position.cursor.nesting.read byte := by
  rw [← Position.read_eq_skip plain, Position.nesting_read]

private theorem role_in_comment {text : Bytes} {start : Nat} (bracesShow : BracesShow text)
    (follows : position.Follows text (byte :: rest))
    (inside : position.comment = some start) :
    position.cursor.nesting.role byte = .plain := by
  rcases drop_eq_cons follows.rest with ⟨here, -, within⟩
  have comment := follows.inside start inside
  have covered : inComment text position.cursor.offset = true :=
    inComment_of_mem comment.mem_comments (Nat.le_of_add_right_le comment.behind)
      (comment.lt_stop within)
  by_cases brace : byte = openBrace ∨ byte = closeBrace
  · apply Nesting.role_of_quoted
    rw [follows.quoted]
    apply bracesShow _ covered
    rw [here]
    exact brace.imp (congrArg some) (congrArg some)
  · rw [not_or] at brace
    exact Nesting.role_of_not_brace _ brace.1 brace.2

theorem InStep.nesting_eq (step : InStep position shadow)
    (zero : position.cursor.nesting.depth = 0) :
    shadow.cursor.nesting = position.cursor.nesting := by
  rw [step.nesting, Nesting.shadow_of_zero zero]

theorem InStep.of_outer {shadowNext : Position} (zero : next.cursor.nesting.depth = 0)
    (nesting : shadowNext.cursor.nesting = next.cursor.nesting)
    (previous : shadowNext.previous = next.previous)
    (comment : shadowNext.comment.isSome = next.comment.isSome) :
    InStep next shadowNext where
  nesting := by rw [nesting, Nesting.shadow_of_zero zero]
  outer _ := ⟨previous, comment⟩
  inner deeper := absurd zero deeper

/-- Outside all blocks both bytes stay, inside a block neither does. -/
private theorem InStep.pair_step (lenient : settings.strict = false) (step : InStep position shadow)
    {first second : UInt8} (firstPlain : ∀ nesting : Nesting, nesting.role first = .plain)
    (secondPlain : ∀ nesting : Nesting, nesting.role second = .plain)
    (balanced : Balanced position.cursor.nesting (first :: second :: rest))
    {move : Position → Position}
    (cursor : ∀ position, (move position).cursor = (position.cursor.skip first).skip second)
    (previous : ∀ position, (move position).previous = second)
    (comment : ∀ one other, (move one).comment.isSome = (move other).comment.isSome)
    (moves : ∀ later, shadow.cursor.nesting = position.cursor.nesting →
      shadow.comment.isSome = position.comment.isSome →
      (scanner settings).trace (first :: second :: later) shadow =
        (scanner settings).trace later (move shadow)) :
    ∃ shadowNext, InStep (move position) shadowNext ∧
      Balanced (move position).cursor.nesting rest ∧
      ((scanner settings).trace (hollowed position.cursor.nesting (first :: second :: rest))
          shadow).output =
        ((scanner settings).trace (hollowed (move position).cursor.nesting rest)
          shadowNext).output := by
  have nestingFirst : (position.skip first).cursor.nesting =
      position.cursor.nesting.read first := nesting_skip (firstPlain _)
  have nestingSecond : (move position).cursor.nesting =
      (position.skip first).cursor.nesting.read second := by
    rw [cursor]
    exact @nesting_skip (position.skip first) second (secondPlain _)
  have tail : Balanced (position.skip first).cursor.nesting (second :: rest) :=
    nestingFirst ▸ balanced.tail
  have tailNext : Balanced (move position).cursor.nesting rest := nestingSecond ▸ tail.tail
  by_cases zero : position.cursor.nesting.depth = 0
  · have zeroNext : (move position).cursor.nesting.depth = 0 := by
      rw [cursor]
      exact zero
    rcases step.outer zero with ⟨-, alike⟩
    refine ⟨move shadow, .of_outer zeroNext ?_ ?_ (comment _ _), tailNext, ?_⟩
    · rw [cursor, cursor, Cursor.skip, Cursor.skip, step.nesting_eq zero]
      rfl
    · rw [previous, previous]
    · rw [hollowed_of_outer zero balanced, ← nestingFirst]
      rw [@hollowed_of_outer second rest (position.skip first).cursor.nesting zero tail,
        ← nestingSecond, moves _ (step.nesting_eq zero) alike]
  · rcases step.inner_step lenient zero balanced nestingFirst rfl
      (fun outer => absurd outer zero) with ⟨middle, stepMiddle, same⟩
    rcases stepMiddle.inner_step lenient zero tail nestingSecond (previous _) (fun outer => by
      rw [cursor] at outer
      exact absurd outer zero) with ⟨last, stepLast, sameNext⟩
    exact ⟨last, stepLast, tailNext, same.trans sameNext⟩

private theorem InStep.read_step (lenient : settings.strict = false) (step : InStep position shadow)
    (zero : position.cursor.nesting.depth = 0)
    (balanced : Balanced position.cursor.nesting (byte :: rest))
    (outside : position.comment = none)
    (ordinary : position.opensComment byte rest.head? = false) :
    InStep (position.read byte) (shadow.read byte) ∧
      (scanner settings).trace (hollowed position.cursor.nesting (byte :: rest)) shadow =
        ((scanner settings).trace (hollowed (position.cursor.nesting.read byte) rest)
          (shadow.read byte)).after
            (chunks position.cursor.nesting position.previous byte) := by
  rcases step.outer zero with ⟨previous, alike⟩
  have shadowOutside : shadow.comment = none := by
    rw [outside] at alike
    exact Option.not_isSome_iff_eq_none.mp (by simp [alike])
  have shadowOrdinary : shadow.opensComment byte
      (hollowed (position.cursor.nesting.read byte) rest).head? = false := by
    by_cases isSlash : byte = slash
    · have plain : position.cursor.nesting.role byte = .plain := by
        rw [isSlash]
        exact Nesting.role_of_not_brace _ (by decide) (by decide)
      have zeroNext : (position.cursor.nesting.read byte).depth = 0 := by
        rw [Nesting.read_of_plain plain, zero]
      rw [head?_hollowed zeroNext balanced.tail]
      unfold Position.opensComment at ordinary ⊢
      rw [step.nesting_eq zero, ordinary]
    · exact shadow.opensComment_of_ne isSlash _
  refine ⟨⟨?_, fun _ => ⟨rfl, alike⟩, fun _ => shadowOutside⟩, ?_⟩
  · have keeps := (Nesting.keeps_iff balanced.depth_nonneg balanced.tail.depth_nonneg).mpr
      (.inl zero)
    rw [Position.nesting_read, Position.nesting_read, step.nesting,
      Nesting.shadow_read_of_keeps balanced.depth_nonneg balanced.tail.depth_nonneg keeps]
  · rw [hollowed_of_outer zero balanced,
      trace_read_of_lenient lenient shadowOutside shadowOrdinary, step.nesting_eq zero, previous]

theorem hollowed_output (lenient : settings.strict = false) {text : Bytes}
    (bracesShow : BracesShow text) (follows : position.Follows text rest) :
    ∀ shadow, InStep position shadow → Balanced position.cursor.nesting rest →
      ((scanner settings).trace (hollowed position.cursor.nesting rest) shadow).output =
        ((scanner settings).trace rest position).output := by
  refine Position.follows_induction (motive := fun position rest =>
    ∀ shadow, InStep position shadow → Balanced position.cursor.nesting rest →
      ((scanner settings).trace (hollowed position.cursor.nesting rest) shadow).output =
        ((scanner settings).trace rest position).output) ?finish ?close ?skip ?enter ?read
    follows
  case finish =>
    intro position _ shadow _ _
    rfl
  case close =>
    intro position later _ inside induction shadow step balanced
    rcases @InStep.pair_step _ _ _ later lenient step star slash
      (fun nesting => nesting.role_of_not_brace (by decide) (by decide))
      (fun nesting => nesting.role_of_not_brace (by decide) (by decide)) balanced
      Position.closeComment (fun _ => rfl) (fun _ => rfl) (fun _ _ => rfl)
      (fun _ _ alike => trace_close settings (alike.trans inside)) with
      ⟨last, stepLast, tail, same⟩
    rw [trace_close settings inside, same, induction last stepLast tail]
  case skip =>
    intro position byte rest follows inside going induction shadow step balanced
    rcases Option.isSome_iff_exists.mp inside with ⟨start, comment⟩
    have nesting := nesting_skip (role_in_comment bracesShow follows comment)
    have tail : Balanced (position.skip byte).cursor.nesting rest := nesting ▸ balanced.tail
    rw [trace_skip settings inside going]
    by_cases zero : position.cursor.nesting.depth = 0
    · rcases step.outer zero with ⟨_, alike⟩
      have head := @head?_hollowed rest (position.skip byte).cursor.nesting zero tail
      rw [hollowed_of_outer zero balanced, ← nesting,
        trace_skip settings (alike.trans inside) (by rwa [head])]
      refine induction _ (.of_outer zero ?_ rfl alike) tail
      exact congrArg (·.after byte) (step.nesting_eq zero)
    · rcases step.inner_step lenient zero balanced nesting rfl
        (fun outer => absurd outer zero) with ⟨last, stepLast, same⟩
      rw [same, induction last stepLast tail]
  case enter =>
    intro position later _ outside live induction shadow step balanced
    rcases @InStep.pair_step _ _ _ later lenient step slash star
      (fun nesting => nesting.role_of_not_brace (by decide) (by decide))
      (fun nesting => nesting.role_of_not_brace (by decide) (by decide)) balanced
      Position.openComment (fun _ => rfl) (fun _ => rfl) (fun _ _ => rfl)
      (fun _ same alike => trace_open settings
        (Option.not_isSome_iff_eq_none.mp (by simp [alike, outside])) (by rw [same, live])) with
      ⟨last, stepLast, tail, same⟩
    rw [trace_open settings outside live, same, induction last stepLast tail]
  case read =>
    intro position byte rest follows outside ordinary induction shadow step balanced
    have nesting := position.nesting_read byte
    have tail : Balanced (position.read byte).cursor.nesting rest := nesting ▸ balanced.tail
    rw [trace_read_of_lenient lenient outside ordinary]
    by_cases zero : position.cursor.nesting.depth = 0
    · rcases step.read_step lenient zero balanced outside ordinary with ⟨stepNext, same⟩
      rw [same, ← nesting, Scanner.Trace.output_after, Scanner.Trace.output_after,
        induction _ stepNext tail]
    · rcases step.inner_step lenient zero balanced nesting rfl (fun _ => outside) with
        ⟨last, stepLast, same⟩
      rw [same, induction last stepLast tail, chunks_of_inner zero]
      rfl

end Rules

/-! ## Both jobs together -/

theorem tidy_output_hollowed {settings : Settings} (lenient : settings.strict = false)
    (topLevel : settings.topLevelMarker = true) {source : Bytes} (balanced : Balanced {} source)
    (bracesShow : ∀ start tally,
      (Outlet.inMemory (Declarations.run · settings source)).1 = .ok (some start, tally) →
      Rules.BracesShow (source.drop start)) :
    Tidy.output settings (hollowed {} source) = Tidy.output settings source := by
  have initial : Declarations.InStep {} {} := ⟨rfl, rfl, fun _ => rfl, rfl, rfl⟩
  rcases Declarations.hollowed_output lenient topLevel source {} {} initial balanced with
    ⟨declared, last, shadowLast, unread, finished, shadowFinished, marked, balancedUnread⟩
  have ends := Declarations.endsBefore_of_finished finished lenient
  rw [Declarations.tidy_output_of_finished finished lenient,
    Declarations.tidy_output_of_finished shadowFinished lenient, ← marked]
  have rules : last.rulesStart.isSome →
      Rules.output settings (hollowed {} unread) = Rules.output settings unread := by
    intro isMarked
    have scanned := Declarations.result_of_finished finished lenient
    rcases ends.marker with start | ⟨absent, -⟩
    · rw [start] at scanned
      have shows := bracesShow _ _ (by rw [Declarations.inMemory_run, scanned])
      rw [ends.follows.rest] at shows
      exact Rules.hollowed_output lenient shows (Rules.Position.follows_initial unread) {}
        (.of_outer rfl rfl rfl rfl) balancedUnread
    · simp [absent] at isMarked
  unfold Declarations.output
  rw [declared]
  split
  · rename_i isMarked
    rw [rules isMarked]
  · rfl

namespace Mode

/-- A file that was hollowed first is tidied to the same bytes, if no block is
closed that was not opened, and if no comment of the rules section hides a live
brace. -/
theorem tidy_after_hollow {settings : Settings} (lenient : settings.strict = false)
    (topLevel : settings.topLevelMarker = true) {source : Bytes} (balanced : Balanced {} source)
    (bracesShow : ∀ start tally,
      (Outlet.inMemory (Declarations.run · settings source)).1 = .ok (some start, tally) →
      Rules.BracesShow (source.drop start)) :
    ∃ hollow tidied,
      Mode.hollow.apply settings source = .ok hollow ∧
        Mode.tidy.apply settings hollow = .ok tidied ∧
        Mode.tidy.apply settings source = .ok tidied := by
  refine ⟨_, _, hollow_apply lenient source, tidy_apply lenient _, ?_⟩
  have hollow : Hollow.output settings source = hollowed {} source :=
    Hollow.output_eq_hollowed lenient source {}
  rw [tidy_apply lenient, hollow, tidy_output_hollowed lenient topLevel balanced bracesShow]

/-- The first block holds a quoted brace and a comment, and the comment behind it
a quoted brace. -/
theorem tidy_after_hollow_quoted_braces :
    let settings : Settings := { topLevelMarker := true }
    let source := Bytes.ofText "x\x7by\x7d%%a\x7b'\x7d/*b*/\n\x7d/*'\x7b*/ c:d"
    Balanced {} source ∧
      (∀ start tally,
        (Outlet.inMemory (Declarations.run · settings source)).1 = .ok (some start, tally) →
        Rules.BracesShow (source.drop start)) ∧
      ∃ hollow tidied,
        Mode.hollow.apply settings source = .ok hollow ∧
          Mode.tidy.apply settings hollow = .ok tidied ∧
          Mode.tidy.apply settings source = .ok tidied := by
  intro settings source
  have balanced : Balanced {} source := by decide +kernel
  have bracesShow : ∀ start tally,
      (Outlet.inMemory (Declarations.run · settings source)).1 = .ok (some start, tally) →
      Rules.BracesShow (source.drop start) := by
    intro start tally scanned
    have found : (Outlet.inMemory (Declarations.run · settings source)).1 =
        .ok (some 6, ⟨6, 5, 1, 0, some 6⟩) := rfl
    cases scanned.symm.trans found
    decide +kernel
  exact ⟨balanced, bracesShow, tidy_after_hollow rfl rfl balanced bracesShow⟩

end Mode

end GrammarTidy
