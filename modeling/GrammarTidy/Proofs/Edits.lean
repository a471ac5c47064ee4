import GrammarTidy.Proofs.RulesReading
import Mathlib.Logic.Relation

/-! Edits of a rules section that its layout does not show. Two scans that go
different ways through an edit come to positions that look alike, and from there
on they move together. -/

namespace GrammarTidy.Rules

open Byte

/-! ## Scans that look alike -/

/-- Positions that no byte to come can tell apart. -/
structure Position.Alike (left right : Position) : Prop where
  nesting : left.cursor.nesting = right.cursor.nesting
  previous : isBlank left.previous = isBlank right.previous
  comment : left.comment.isSome = right.comment.isSome

/-- Traces that put the same chunks and end alike, in alike positions or with
the same kind of fault. -/
structure TracesAlike (left right : Scanner.Trace Position) : Prop where
  chunks : left.chunks = right.chunks
  ending :
    (∃ leftLast rightLast leftUnread rightUnread,
      left.ending = .finished leftLast leftUnread ∧
        right.ending = .finished rightLast rightUnread ∧ leftLast.Alike rightLast) ∨
      ∃ leftDefect rightDefect, left.ending = .rejected leftDefect ∧
        right.ending = .rejected rightDefect ∧ leftDefect.kind = rightDefect.kind

theorem TracesAlike.refl (trace : Scanner.Trace Position) : TracesAlike trace trace where
  chunks := rfl
  ending := by
    cases ending : trace.ending with
    | finished last unread => exact .inl ⟨last, last, unread, unread, rfl, rfl, rfl, rfl, rfl⟩
    | rejected defect => exact .inr ⟨defect, defect, rfl, rfl, rfl⟩

theorem TracesAlike.trans {first second third : Scanner.Trace Position}
    (left : TracesAlike first second) (right : TracesAlike second third) :
    TracesAlike first third where
  chunks := left.chunks.trans right.chunks
  ending := by
    rcases left.ending with ⟨start, middle, _, _, ends, met, alike⟩ |
      ⟨start, middle, ends, met, same⟩
    · rcases right.ending with ⟨other, last, _, _, again, finishes, alikeLast⟩ |
        ⟨other, last, again, rejects, -⟩
      · cases met.symm.trans again
        exact .inl ⟨start, last, _, _, ends, finishes, alike.nesting.trans alikeLast.nesting,
          alike.previous.trans alikeLast.previous, alike.comment.trans alikeLast.comment⟩
      · cases met.symm.trans again
    · rcases right.ending with ⟨other, last, _, _, again, -, -⟩ |
        ⟨other, last, again, rejects, sameLast⟩
      · cases met.symm.trans again
      · cases met.symm.trans again
        exact .inr ⟨start, last, ends, rejects, same.trans sameLast⟩

theorem TracesAlike.after {left right : Scanner.Trace Position}
    (alike : TracesAlike left right) (chunks : List Bytes) :
    TracesAlike (left.after chunks) (right.after chunks) where
  chunks := congrArg (chunks ++ ·) alike.chunks
  ending := alike.ending

section Alike

variable {settings : Settings} {left right : Position}

theorem Position.Alike.chunks (alike : left.Alike right) (byte : UInt8) :
    chunks left.cursor.nesting left.previous byte =
      chunks right.cursor.nesting right.previous byte := by
  unfold Rules.chunks tokenChunks
  rw [alike.nesting, alike.previous]

theorem Position.Alike.skip (alike : left.Alike right) (byte : UInt8) :
    (left.skip byte).Alike (right.skip byte) where
  nesting := congrArg (Nesting.after · byte) alike.nesting
  previous := rfl
  comment := alike.comment

theorem Position.Alike.read (alike : left.Alike right) (byte : UInt8) :
    (left.read byte).Alike (right.read byte) where
  nesting := by
    rw [nesting_read, nesting_read, alike.nesting]
  previous := rfl
  comment := alike.comment

theorem Position.Alike.outside (alike : left.Alike right) (outside : left.comment = none) :
    right.comment = none := by
  rw [← Option.not_isSome_iff_eq_none, ← alike.comment, outside]
  exact Bool.false_ne_true

theorem Position.Alike.trace (alike : left.Alike right) (rest : Bytes) :
    TracesAlike ((scanner settings).trace rest left) ((scanner settings).trace rest right) := by
  induction left, rest using reading_induction generalizing right with
  | finish left =>
      exact ⟨rfl, .inl ⟨left, right, [], [], rfl, rfl, alike⟩⟩
  | close left later inside induction =>
      rw [trace_close settings inside, trace_close settings (alike.comment ▸ inside)]
      have alikeNext := (alike.skip star).skip slash
      apply induction
      exact ⟨alikeNext.nesting, rfl, rfl⟩
  | skip left byte rest inside going induction =>
      rw [trace_skip settings inside going,
        trace_skip settings (alike.comment ▸ inside) going]
      apply induction
      exact alike.skip byte
  | enter left later outside live induction =>
      rw [trace_open settings outside live,
        trace_open settings (alike.outside outside) (alike.nesting ▸ live)]
      have alikeNext := (alike.skip slash).skip star
      apply induction
      exact ⟨alikeNext.nesting, rfl, rfl⟩
  | read left byte rest outside ordinary induction =>
      have strays : left.cursor.strays byte = right.cursor.strays byte := by
        rw [Cursor.strays, Cursor.strays, alike.nesting]
      have ordinaryRight : right.opensComment byte rest.head? = false := by
        rw [Position.opensComment, ← alike.nesting]
        exact ordinary
      rw [trace_read settings outside ordinary,
        trace_read settings (alike.outside outside) ordinaryRight, ← strays, ← alike.chunks]
      split
      · exact ⟨rfl, .inr ⟨_, _, rfl, rfl, rfl⟩⟩
      · apply TracesAlike.after
        apply induction
        exact alike.read byte

end Alike

/-! ## Texts read in two pieces -/

namespace Position

variable {position : Position} {byte : UInt8} {rest : Bytes}

structure Parted (position : Position) (rest : Bytes) : Prop where
  start : position.previous = slash → rest.head? ≠ some star
  finish : position.comment.isSome → rest.head? ≠ some slash

structure Detached (position : Position) (rest : Bytes) : Prop where
  star : rest.head? ≠ some star
  slash : rest.head? = some slash → position.comment = none

theorem Detached.parted (detached : position.Detached rest) : position.Parted rest where
  start _ := detached.star
  finish inside closes := by
    rw [detached.slash closes] at inside
    cases inside

theorem detached_cons (notStar : byte ≠ Byte.star) (notSlash : byte ≠ Byte.slash) :
    position.Detached (byte :: rest) where
  star same := notStar (Option.some.inj same)
  slash same := absurd (Option.some.inj same) notSlash

end Position

variable (settings : Settings)

/-- A text whose pieces are parted is read piece by piece. -/
theorem trace_append {position : Position} {before rest : Bytes}
    (parted : (position.reach before).Parted rest) :
    (scanner settings).trace (before ++ rest) position =
      match ((scanner settings).trace before position).ending with
      | .finished _ _ => ((scanner settings).trace rest (position.reach before)).after
          ((scanner settings).trace before position).chunks
      | .rejected _ => (scanner settings).trace before position := by
  induction position, before using reading_induction with
  | finish position => rfl
  | close position later inside induction =>
      rw [Position.reach_close inside] at parted ⊢
      rw [List.cons_append, List.cons_append, trace_close settings inside,
        trace_close settings inside]
      exact induction parted
  | skip position byte before inside going induction =>
      rw [Position.reach_skip inside going] at parted ⊢
      have goingOn : byte = star → (before ++ rest).head? ≠ some slash := by
        intro isStar
        cases before with
        | nil => exact parted.finish inside
        | cons next before => exact going isStar
      rw [List.cons_append, trace_skip settings inside goingOn,
        trace_skip settings inside going]
      exact induction parted
  | enter position later outside live induction =>
      rw [Position.reach_open outside live] at parted ⊢
      rw [List.cons_append, List.cons_append, trace_open settings outside live,
        trace_open settings outside live]
      exact induction parted
  | read position byte before outside ordinary induction =>
      rw [Position.reach_read outside ordinary] at parted ⊢
      have ordinaryStill : position.opensComment byte (before ++ rest).head? = false := by
        cases before with
        | nil =>
            rw [Position.opensComment, Bool.and_eq_false_iff]
            by_cases isSlash : byte = slash
            · exact .inr (beq_false_of_ne (parted.start isSlash))
            · exact .inl (by simp [isSlash])
        | cons next before => exact ordinary
      rw [List.cons_append, trace_read settings outside ordinaryStill,
        trace_read settings outside ordinary]
      cases settings.strict && position.cursor.strays byte with
      | true => rfl
      | false =>
          rw [induction parted]
          simp only [Bool.false_eq_true, if_false, Scanner.Trace.ending_after]
          cases ((scanner settings).trace before (position.read byte)).ending with
          | finished last unread =>
              simp only [Scanner.Trace.after, List.append_assoc]
          | rejected defect => rfl

theorem TracesAlike.prepend {settings : Settings} {position : Position}
    {before left right : Bytes}
    (leftDetached : (position.reach before).Detached left)
    (rightDetached : (position.reach before).Detached right)
    (alike : TracesAlike ((scanner settings).trace left (position.reach before))
      ((scanner settings).trace right (position.reach before))) :
    TracesAlike ((scanner settings).trace (before ++ left) position)
      ((scanner settings).trace (before ++ right) position) := by
  rw [trace_append settings leftDetached.parted, trace_append settings rightDetached.parted]
  split
  · exact alike.after _
  · exact TracesAlike.refl _

/-! ## Blocks -/

/-- A text that stays at the depth at which it is read or above, and comes back to
it, outside comments and with nothing quoted. -/
structure Position.Encloses (position : Position) (inner : Bytes) : Prop where
  above : ∀ length ≤ inner.length, position.cursor.nesting.depth ≤
    (position.reach (inner.take length)).cursor.nesting.depth
  level : (position.reach inner).cursor.nesting.depth = position.cursor.nesting.depth
  outside : (position.reach inner).comment = none
  live : (position.reach inner).cursor.nesting.quoted = false

private theorem trace_inner {position : Position} {inner : Bytes}
    (above : ∀ length ≤ inner.length,
      0 < (position.reach (inner.take length)).cursor.nesting.depth) :
    (scanner settings).trace inner position =
      { ending := .finished (position.reach inner) [] } := by
  induction position, inner using reading_induction with
  | finish position => rfl
  | close position later inside induction =>
      rw [trace_close settings inside, Position.reach_close inside]
      apply induction
      intro length within
      have deeper := above (length + 2) (Nat.add_le_add_right within 2)
      rwa [List.take_succ_cons, List.take_succ_cons, Position.reach_close inside] at deeper
  | skip position byte rest inside going induction =>
      rw [trace_skip settings inside going, Position.reach_skip inside going]
      apply induction
      intro length within
      have deeper := above (length + 1) (Nat.add_le_add_right within 1)
      rw [List.take_succ_cons, Position.reach_skip inside] at deeper
      · exact deeper
      · intro isStar
        rw [List.head?_take]
        split
        · exact nofun
        · exact going isStar
  | enter position later outside live induction =>
      rw [trace_open settings outside live, Position.reach_open outside live]
      apply induction
      intro length within
      have deeper := above (length + 2) (Nat.add_le_add_right within 2)
      rwa [List.take_succ_cons, List.take_succ_cons, Position.reach_open outside live] at deeper
  | read position byte rest outside ordinary induction =>
      have here : 0 < position.cursor.nesting.depth := above 0 (Nat.zero_le _)
      rw [trace_silent settings outside ordinary (Cursor.strays_of_positive here byte)
        (chunks_of_inner (Int.ne_of_gt here) _ _), Position.reach_read outside ordinary]
      apply induction
      intro length within
      have deeper := above (length + 1) (Nat.add_le_add_right within 1)
      rw [List.take_succ_cons, Position.reach_read outside] at deeper
      · exact deeper
      · rw [List.head?_take]
        split
        · exact Bool.and_false _
        · exact ordinary

section Block

variable {settings} {position : Position} {byte : UInt8} {inner after : Bytes}

private theorem trace_brace (outside : position.comment = none)
    (brace : position.cursor.nesting.role byte ≠ .plain)
    (kept : position.cursor.strays byte = false) :
    (scanner settings).trace (byte :: after) position =
      (scanner settings).trace after (position.read byte) := by
  have notSlash : byte ≠ slash := by
    intro same
    subst same
    exact brace (Nesting.role_of_not_brace _ (by decide) (by decide))
  apply trace_silent settings outside
  · exact position.opensComment_of_ne notSlash _
  · exact kept
  · exact chunks_of_brace brace _

private theorem trace_block (outside : position.comment = none)
    (live : position.cursor.nesting.quoted = false) (above : 0 ≤ position.cursor.nesting.depth)
    (encloses : (position.read openBrace).Encloses inner) :
    (scanner settings).trace (openBrace :: (inner ++ closeBrace :: after)) position =
      (scanner settings).trace after
        (((position.read openBrace).reach inner).read closeBrace) := by
  have opening : position.cursor.nesting.role openBrace = .opening :=
    Nesting.role_eq_opening_iff.mpr ⟨live, rfl⟩
  have closing : ((position.read openBrace).reach inner).cursor.nesting.role closeBrace =
      .closing := Nesting.role_eq_closing_iff.mpr ⟨encloses.live, rfl⟩
  have deeper : 0 < (position.read openBrace).cursor.nesting.depth := by
    rw [Position.nesting_read, Nesting.read_of_opening opening]
    exact Int.lt_add_one_of_le above
  have detached : ((position.read openBrace).reach inner).Detached (closeBrace :: after) :=
    Position.detached_cons (by decide) (by decide)
  rw [trace_brace outside (by simp [opening]) (by simp [Cursor.strays, opening]),
    trace_append settings detached.parted,
    trace_inner settings fun length within => Int.lt_of_lt_of_le deeper
      (encloses.above length within)]
  dsimp only
  rw [trace_brace encloses.outside (by simp [closing])
    (Cursor.strays_of_positive (encloses.level ▸ deeper) _)]
  rfl

private theorem Position.Encloses.nesting_eq (encloses : position.Encloses inner) :
    (position.reach inner).cursor.nesting = { depth := position.cursor.nesting.depth } := by
  calc
    _ = (⟨(position.reach inner).cursor.nesting.depth,
          (position.reach inner).cursor.nesting.quoted⟩ : Nesting) := rfl
    _ = _ := by rw [encloses.level, encloses.live]

private theorem alike_past_block {other : Bytes}
    (encloses : position.Encloses inner) (enclosesOther : position.Encloses other) :
    ((position.reach inner).read closeBrace).Alike
      ((position.reach other).read closeBrace) where
  nesting := by
    rw [Position.nesting_read, Position.nesting_read, encloses.nesting_eq,
      enclosesOther.nesting_eq]
  previous := rfl
  comment := by
    change (position.reach inner).comment.isSome = (position.reach other).comment.isSome
    rw [encloses.outside, enclosesOther.outside]

end Block

/-! ## Comments and gaps -/

private theorem foldl_skip (text : Bytes) (position : Position) :
    (text.foldl Position.skip position).cursor.nesting.depth = position.cursor.nesting.depth ∧
      (text.foldl Position.skip position).comment = position.comment := by
  induction text generalizing position with
  | nil => exact ⟨rfl, rfl⟩
  | cons byte text induction => exact induction (position.skip byte)

section Passed

variable {settings} {position : Position} {byte : UInt8} {body gap after : Bytes}

private theorem trace_comment (inside : position.comment.isSome)
    (unclosed : ¬[star, slash] <:+: body) :
    (scanner settings).trace (body ++ star :: slash :: after) position =
      (scanner settings).trace after (body.foldl Position.skip position).closeComment := by
  induction body generalizing position with
  | nil => exact trace_close settings inside
  | cons byte body induction =>
      have going : byte = star → (body ++ star :: slash :: after).head? ≠ some slash := by
        intro isStar closes
        cases body with
        | nil => exact absurd (Option.some.inj closes) (by decide)
        | cons second body =>
            apply unclosed
            rw [isStar, Option.some.inj closes]
            exact (List.prefix_append [star, slash] body).isInfix
      rw [List.cons_append, trace_skip settings inside going]
      apply induction
      · exact inside
      · intro found
        exact unclosed (found.trans (List.suffix_cons byte body).isInfix)

private theorem trace_gap (spaces : ∀ byte ∈ gap, isSpace byte = true) :
    (scanner settings).trace (gap ++ after) position =
      (scanner settings).trace after (gap.foldl Position.skip position) := by
  induction gap generalizing position with
  | nil => rfl
  | cons byte gap induction =>
      have space : isSpace byte = true := spaces byte List.mem_cons_self
      rw [List.cons_append, List.foldl_cons, ← induction fun byte member =>
        spaces byte (List.mem_cons_of_mem _ member)]
      cases inside : position.comment with
      | some start =>
          apply trace_skip settings (Option.isSome_iff_exists.mpr ⟨start, inside⟩)
          exact fun isStar => absurd isStar (ne_of_isSpace space rfl)
      | none =>
          rw [trace_space settings inside space,
            Position.read_eq_skip (Nesting.role_of_space _ space)]

private theorem alike_past_comment (position : Position) (body other : Bytes) :
    (body.foldl Position.skip position).closeComment.Alike
      (other.foldl Position.skip position).closeComment where
  nesting := by
    have same := (foldl_skip body position).1.trans (foldl_skip other position).1.symm
    change ({ depth := _, quoted := _ } : Nesting) = { depth := _, quoted := _ }
    exact congrArg (Nesting.mk · _) same
  previous := rfl
  comment := rfl

private theorem last_foldl_skip {gap : Bytes} {last : UInt8} (ends : gap.getLast? = some last)
    (position : Position) : (gap.foldl Position.skip position).previous = last ∧
      (gap.foldl Position.skip position).cursor.nesting =
        { depth := position.cursor.nesting.depth, quoted := last == quote } := by
  rcases List.getLast?_eq_some_iff.mp ends with ⟨front, rfl⟩
  rw [List.foldl_append]
  refine ⟨rfl, ?_⟩
  exact congrArg (Nesting.mk · _) (foldl_skip front position).1

private theorem alike_past_gap {gap other : Bytes} {blank : Bool}
    (spaces : ∀ byte ∈ gap, isSpace byte = true)
    (spacesOther : ∀ byte ∈ other, isSpace byte = true)
    (ends : gap.getLast?.map isBlank = some blank)
    (endsOther : other.getLast?.map isBlank = some blank) (position : Position) :
    (gap.foldl Position.skip position).Alike (other.foldl Position.skip position) := by
  rcases Option.map_eq_some_iff.mp ends with ⟨last, isLast, lastBlank⟩
  rcases Option.map_eq_some_iff.mp endsOther with ⟨lastOther, isLastOther, otherBlank⟩
  have notQuote : (last == quote) = false := by
    rw [beq_eq_false_iff_ne]
    exact ne_of_isSpace (spaces last (List.mem_of_getLast? isLast)) rfl
  have otherNotQuote : (lastOther == quote) = false := by
    rw [beq_eq_false_iff_ne]
    exact ne_of_isSpace (spacesOther lastOther (List.mem_of_getLast? isLastOther)) rfl
  refine ⟨?_, ?_, ?_⟩
  · rw [(last_foldl_skip isLast position).2, (last_foldl_skip isLastOther position).2,
      notQuote, otherNotQuote]
  · rw [(last_foldl_skip isLast position).1, (last_foldl_skip isLastOther position).1,
      lastBlank, otherBlank]
  · rw [(foldl_skip gap position).2, (foldl_skip other position).2]

end Passed

/-! ## Edits -/

/-- The edits of a rules section that do not matter. -/
inductive Edit : Bytes → Bytes → Prop where
  | block (before after : Bytes) {inner other : Bytes}
      (outside : (({} : Position).reach before).comment = none)
      (live : (({} : Position).reach before).cursor.nesting.quoted = false)
      (above : 0 ≤ (({} : Position).reach before).cursor.nesting.depth)
      (encloses : ((({} : Position).reach before).read openBrace).Encloses inner)
      (enclosesOther : ((({} : Position).reach before).read openBrace).Encloses other) :
      Edit (before ++ openBrace :: (inner ++ closeBrace :: after))
        (before ++ openBrace :: (other ++ closeBrace :: after))
  | comment (before after : Bytes) {body other : Bytes}
      (outside : (({} : Position).reach before).comment = none)
      (live : (({} : Position).reach before).cursor.nesting.quoted = false)
      (unclosed : ¬[star, slash] <:+: body) (unclosedOther : ¬[star, slash] <:+: other) :
      Edit (before ++ slash :: star :: (body ++ star :: slash :: after))
        (before ++ slash :: star :: (other ++ star :: slash :: after))
  /-- A gap gets other space bytes. The last of them stays a blank, or a line
  break. -/
  | gap (before after : Bytes) {gap other : Bytes} {blank : Bool}
      (spaces : gap.all isSpace) (spacesOther : other.all isSpace)
      (last : gap.getLast?.map isBlank = some blank)
      (lastOther : other.getLast?.map isBlank = some blank) :
      Edit (before ++ gap ++ after) (before ++ other ++ after)

private theorem detached_gap {position : Position} {gap after : Bytes} {blank : Bool}
    (spaces : ∀ byte ∈ gap, isSpace byte = true)
    (ends : gap.getLast?.map isBlank = some blank) : position.Detached (gap ++ after) := by
  cases gap with
  | nil => cases ends
  | cons byte gap =>
      have space := spaces byte List.mem_cons_self
      exact Position.detached_cons (ne_of_isSpace space rfl) (ne_of_isSpace space rfl)

theorem Edit.tracesAlike (settings : Settings) {left right : Bytes} (edit : Edit left right) :
    TracesAlike ((scanner settings).trace left {}) ((scanner settings).trace right {}) := by
  cases edit with
  | block before after outside live above encloses enclosesOther =>
      apply TracesAlike.prepend
      · exact Position.detached_cons (by decide) (by decide)
      · exact Position.detached_cons (by decide) (by decide)
      · rw [trace_block outside live above encloses,
          trace_block outside live above enclosesOther]
        exact (alike_past_block encloses enclosesOther).trace after
  | comment before after outside live unclosed unclosedOther =>
      apply TracesAlike.prepend
      · exact ⟨nofun, fun _ => outside⟩
      · exact ⟨nofun, fun _ => outside⟩
      · rw [trace_open settings outside live, trace_open settings outside live,
          trace_comment rfl unclosed, trace_comment rfl unclosedOther]
        exact (alike_past_comment _ _ _).trace after
  | gap before after spaces spacesOther last lastOther =>
      rw [List.all_eq_true] at spaces spacesOther
      rw [List.append_assoc, List.append_assoc]
      apply TracesAlike.prepend
      · exact detached_gap spaces last
      · exact detached_gap spacesOther lastOther
      · rw [trace_gap spaces, trace_gap spacesOther]
        exact (alike_past_gap spaces spacesOther last lastOther _).trace after

theorem tracesAlike_of_edits (settings : Settings) {left right : Bytes}
    (edits : Relation.ReflTransGen Edit left right) :
    TracesAlike ((scanner settings).trace left {}) ((scanner settings).trace right {}) := by
  induction edits with
  | refl => exact TracesAlike.refl _
  | tail _ edit induction => exact induction.trans (edit.tracesAlike settings)

/-! ## What an edit leaves as it is -/

theorem Position.Alike.objection {left right : Position} (alike : left.Alike right)
    (settings : Settings) :
    ((scanner settings).objection left).map Defect.kind =
      ((scanner settings).objection right).map Defect.kind := by
  have blocks : left.cursor.unclosedBlock.map Defect.kind =
      right.cursor.unclosedBlock.map Defect.kind := by
    unfold Cursor.unclosedBlock
    rw [alike.nesting]
    split <;> rfl
  have comments := alike.comment
  unfold scanner
  dsimp only
  cases settings.strict with
  | false => rfl
  | true =>
      cases inside : left.comment with
      | none =>
          rw [alike.outside inside]
          exact blocks
      | some start =>
          rw [inside] at comments
          rcases Option.isSome_iff_exists.mp comments.symm with ⟨otherStart, insideOther⟩
          rw [insideOther]
          rfl

theorem TracesAlike.verdict {settings : Settings} {left right : Bytes}
    (alike : TracesAlike ((scanner settings).trace left {})
      ((scanner settings).trace right {})) :
    (∃ leftLast rightLast, (scanner settings).verdict left = .ok leftLast ∧
        (scanner settings).verdict right = .ok rightLast ∧
        leftLast.cursor.nesting.depth = rightLast.cursor.nesting.depth) ∨
      ∃ leftDefect rightDefect, (scanner settings).verdict left = .error leftDefect ∧
        (scanner settings).verdict right = .error rightDefect ∧
        leftDefect.kind = rightDefect.kind := by
  rcases alike.ending with ⟨leftLast, rightLast, _, _, finished, finishedOther, alikeLast⟩ |
    ⟨leftDefect, rightDefect, rejected, rejectedOther, same⟩
  · have objections := alikeLast.objection settings
    rw [Scanner.verdict_of_finished finished, Scanner.verdict_of_finished finishedOther]
    cases objection : (scanner settings).objection leftLast with
    | none =>
        rw [objection] at objections
        have none := Option.map_eq_none_iff.mp objections.symm
        rw [none]
        exact .inl ⟨leftLast, rightLast, rfl, rfl, by rw [alikeLast.nesting]⟩
    | some defect =>
        rw [objection] at objections
        rcases Option.map_eq_some_iff.mp objections.symm with ⟨otherDefect, found, kind⟩
        rw [found]
        exact .inr ⟨defect, otherDefect, rfl, rfl, kind.symm⟩
  · exact .inr ⟨leftDefect, rightDefect, Scanner.verdict_of_rejected rejected,
      Scanner.verdict_of_rejected rejectedOther, same⟩

/-- Two rules sections are laid out to the same bytes, and end at the same
depth. -/
def SameLayout (settings : Settings) (left right : Bytes) : Prop :=
  ∃ leftTally rightTally output,
    Outlet.inMemory (Rules.run · settings left) = (.ok leftTally, output) ∧
      Outlet.inMemory (Rules.run · settings right) = (.ok rightTally, output) ∧
      leftTally.finalDepth = rightTally.finalDepth

/-- Two rules sections are both accepted, or both rejected for the same kind of
fault. -/
def SameVerdict (settings : Settings) (left right : Bytes) : Prop :=
  (∃ leftTally rightTally,
    (Outlet.inMemory (Rules.run · settings left)).1 = .ok leftTally ∧
      (Outlet.inMemory (Rules.run · settings right)).1 = .ok rightTally) ∨
    ∃ leftFault rightFault,
      (Outlet.inMemory (Rules.run · settings left)).1 = .error leftFault ∧
        (Outlet.inMemory (Rules.run · settings right)).1 = .error rightFault ∧
        leftFault.kind = rightFault.kind

theorem sameLayout_of_tracesAlike {settings : Settings} (lenient : settings.strict = false)
    {left right : Bytes} (alike : TracesAlike ((scanner settings).trace left {})
      ((scanner settings).trace right {})) : SameLayout settings left right := by
  have output : Rules.output settings left = Rules.output settings right :=
    congrArg List.flatten alike.chunks
  rcases alike.verdict with ⟨leftLast, rightLast, ok, okOther, depth⟩ |
    ⟨leftDefect, _, error, -, -⟩
  · refine ⟨leftLast.cursor.tally left (Rules.output settings left).length,
      rightLast.cursor.tally right (Rules.output settings right).length,
      Rules.output settings left, ?_, ?_, depth⟩
    · rw [inMemory_run, result, Scanner.result, ok]
    · rw [inMemory_run, result, Scanner.result, okOther, output]
  · rcases (tolerant lenient).verdict left with ⟨last, ok⟩
    cases ok.symm.trans error

theorem sameVerdict_of_tracesAlike {settings : Settings} {left right : Bytes}
    (alike : TracesAlike ((scanner settings).trace left {})
      ((scanner settings).trace right {})) : SameVerdict settings left right := by
  unfold SameVerdict
  rw [inMemory_run, inMemory_run, result, result, Scanner.result, Scanner.result]
  rcases alike.verdict with ⟨_, _, ok, okOther, -⟩ | ⟨_, _, error, errorOther, same⟩
  · rw [ok, okOther]
    exact .inl ⟨_, _, rfl, rfl⟩
  · rw [error, errorOther]
    exact .inr ⟨_, _, rfl, rfl, same⟩

/-- A rules section is laid out to the same bytes however it is edited, and a
strict scan comes to the same conclusion. -/
theorem sameLayout_of_edits (topLevelMarker : Bool) {left right : Bytes}
    (edits : Relation.ReflTransGen Edit left right) :
    SameLayout { topLevelMarker } left right ∧
      SameVerdict { strict := true, topLevelMarker } left right := by
  constructor
  · apply sameLayout_of_tracesAlike rfl
    exact tracesAlike_of_edits { topLevelMarker } edits
  · apply sameVerdict_of_tracesAlike
    exact tracesAlike_of_edits { strict := true, topLevelMarker } edits

/-- The block gets a quoted brace, a block and a comment, the comment gets stars
and a brace, and the gap gets line breaks. -/
theorem sameLayout_of_edits_of_each_kind :
    let left := Bytes.ofText "a\x7bx\x7d/*y*/ b"
    let right := Bytes.ofText "a\x7b'\x7d\x7b\x7d/*\x7d*/\x7d/***\x7b*/\n\n\tb"
    Relation.ReflTransGen Edit left right ∧ SameLayout {} left right ∧
      SameVerdict { strict := true } left right := by
  intro left right
  have block : Edit left (Bytes.ofText "a\x7b'\x7d\x7b\x7d/*\x7d*/\x7d/*y*/ b") :=
    @Edit.block (Bytes.ofText "a") (Bytes.ofText "/*y*/ b") (Bytes.ofText "x")
      (Bytes.ofText "'\x7d\x7b\x7d/*\x7d*/") rfl rfl (by decide) ⟨by decide, rfl, rfl, rfl⟩
      ⟨by decide, rfl, rfl, rfl⟩
  have comment : Edit (Bytes.ofText "a\x7b'\x7d\x7b\x7d/*\x7d*/\x7d/*y*/ b")
      (Bytes.ofText "a\x7b'\x7d\x7b\x7d/*\x7d*/\x7d/***\x7b*/ b") :=
    @Edit.comment (Bytes.ofText "a\x7b'\x7d\x7b\x7d/*\x7d*/\x7d") (Bytes.ofText " b")
      (Bytes.ofText "y") (Bytes.ofText "**\x7b") rfl rfl (by decide) (by decide)
  have gap : Edit (Bytes.ofText "a\x7b'\x7d\x7b\x7d/*\x7d*/\x7d/***\x7b*/ b") right :=
    @Edit.gap (Bytes.ofText "a\x7b'\x7d\x7b\x7d/*\x7d*/\x7d/***\x7b*/") (Bytes.ofText "b")
      (Bytes.ofText " ") (Bytes.ofText "\n\n\t") true rfl rfl rfl rfl
  have edits : Relation.ReflTransGen Edit left right :=
    ((Relation.ReflTransGen.single block).tail comment).tail gap
  exact ⟨edits, sameLayout_of_edits false edits⟩

end GrammarTidy.Rules
