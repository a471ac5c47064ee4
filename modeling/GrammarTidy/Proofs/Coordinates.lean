import GrammarTidy.Proofs.Diagnosis
import Mathlib.Data.List.Basic
import Mathlib.Data.List.Induction
import Mathlib.Data.List.TakeWhile

/-! Lines and columns as coordinates of a text. They stand for one offset each, they
come in the order of the offsets, and those of a piece of a text turn into those of the
whole text by what comes before the piece. -/

namespace GrammarTidy

open Byte

namespace Location

/-! ## Lines of a text -/

/-- Where a line starts: the first one with the text, and any other one right behind the
newline that ends the line before it. -/
def lineStart (source : Bytes) : Nat → Nat
  | 0 | 1 => 0
  | line + 2 => source.idxOfNth newline line + 1

/-- The number of bytes behind the last newline of a text, and of all its bytes if it has
none. -/
def lastLineLength (text : Bytes) : Nat :=
  (text.reverse.takeWhile (· != newline)).length

/-- An empty line has its start in common with no other line. -/
example :
    let source := Bytes.ofText "ab\n\nc"
    (List.range 4).map (lineStart source) = [0, 0, 3, 4] ∧ lastLineLength source = 1 := by
  decide

private theorem lastLineLength_of_unbroken (front : Bytes) {back : Bytes}
    (unbroken : newline ∉ back) :
    lastLineLength (front ++ back) = lastLineLength front + back.length := by
  have whole : ∀ byte ∈ back.reverse, (byte != newline) = true := by
    intro byte member
    exact bne_iff_ne.mpr fun same => unbroken (same ▸ List.mem_reverse.mp member)
  rw [lastLineLength, List.reverse_append, List.takeWhile_append_of_pos whole,
    List.length_append, List.length_reverse, Nat.add_comm]
  rfl

private theorem lastLineLength_of_broken (front : Bytes) {back : Bytes} (broken : newline ∈ back) :
    lastLineLength (front ++ back) = lastLineLength back := by
  have cut : (back.reverse.takeWhile (· != newline)).length ≠ back.reverse.length := by
    intro whole
    have all := List.takeWhile_eq_self_iff.mp ((List.takeWhile_prefix _).eq_of_length whole)
    exact bne_iff_ne.mp (all newline (List.mem_reverse.mpr broken)) rfl
  rw [lastLineLength, List.reverse_append, List.takeWhile_append, if_neg cut]
  rfl

private theorem idxOfNth_count (before after : Bytes) :
    (before ++ newline :: after).idxOfNth newline (before.count newline) = before.length := by
  have within : before.length < (before ++ newline :: after).length := by simp
  have here : (before ++ newline :: after)[before.length] == newline := by simp
  have counted := List.idxOfNth_countBefore_of_lt_length_of_beq here
  rw [List.countBefore_eq_count_take, List.take_left] at counted
  exact counted

private theorem lineStart_add_lastLineLength (before after : Bytes) :
    lineStart (before ++ after) (1 + before.count newline) + lastLineLength before =
      before.length := by
  induction before using List.reverseRecOn generalizing after with
  | nil => rfl
  | append_singleton before byte induction =>
      rw [List.append_assoc, List.singleton_append, List.count_append, List.length_append]
      by_cases breaks : byte = newline
      · subst breaks
        rw [lastLineLength_of_broken before (List.mem_singleton_self newline)]
        have next : 1 + (before.count newline + [newline].count newline) =
            before.count newline + 2 := Nat.add_comm _ _
        rw [next, lineStart, idxOfNth_count]
        rfl
      · have unbroken : newline ∉ [byte] := fun member => breaks (List.mem_singleton.mp member).symm
        rw [lastLineLength_of_unbroken before unbroken, List.count_eq_zero.mpr unbroken,
          Nat.add_zero, ← Nat.add_assoc, induction (byte :: after)]

/-! ## Places -/

section Places

variable {source : Bytes} {offset : Nat}

theorem column_locate (within : offset ≤ source.length) :
    (locate source offset).column = 1 + lastLineLength (source.take offset) := by
  rw [locate_eq within]
  rfl

theorem lineStart_add_column (within : offset ≤ source.length) :
    lineStart source (locate source offset).line + ((locate source offset).column - 1) =
      offset := by
  have recovered := lineStart_add_lastLineLength (source.take offset) (source.drop offset)
  rw [List.take_append_drop, List.length_take_of_le within] at recovered
  rw [column_locate within, Nat.add_sub_cancel_left]
  exact recovered

theorem lex_locate {first second : Nat} (before : first < second)
    (within : second ≤ source.length) :
    Prod.Lex (· < ·) (· < ·) ((locate source first).line, (locate source first).column)
      ((locate source second).line, (locate source second).column) := by
  have firstWithin : first ≤ source.length := Nat.le_trans (Nat.le_of_lt before) within
  have lines : (locate source first).line ≤ (locate source second).line :=
    Nat.add_le_add_left ((List.take_sublist_take_left (Nat.le_of_lt before)).count_le _) 1
  rcases Nat.lt_or_eq_of_le lines with above | same
  · exact .left _ _ above
  · have firstOffset := lineStart_add_column firstWithin
    have secondOffset := lineStart_add_column within
    rw [← same] at secondOffset
    rw [same]
    apply Prod.Lex.right
    omega

theorem locate_add {base : Nat} (within : base ≤ source.length)
    (inside : offset ≤ source.length - base) :
    (locate source (base + offset)).line =
        (locate (source.drop base) offset).line + (source.take base).count newline ∧
      (locate source (base + offset)).column =
        if (locate (source.drop base) offset).line = 1 then
          (locate (source.drop base) offset).column + lastLineLength (source.take base)
        else
          (locate (source.drop base) offset).column := by
  have split : source.take (base + offset) = source.take base ++ (source.drop base).take offset :=
    List.take_add
  have insideDrop : offset ≤ (source.drop base).length := by
    rw [List.length_drop]
    exact inside
  rw [column_locate (by omega), column_locate insideDrop, split]
  constructor
  · rw [locate, locate, split, List.count_append]
    dsimp only
    omega
  · have first : (locate (source.drop base) offset).line = 1 ↔
        newline ∉ (source.drop base).take offset := by
      rw [← List.count_eq_zero]
      exact Nat.add_eq_left
    split
    · rename_i onFirst
      have unbroken := first.mp onFirst
      have alone := lastLineLength_of_unbroken [] unbroken
      have empty : lastLineLength [] = 0 := rfl
      rw [List.nil_append, empty] at alone
      rw [lastLineLength_of_unbroken _ unbroken, alone]
      omega
    · rename_i later
      rw [lastLineLength_of_broken _ (not_not.mp (mt first.mpr later))]

end Places

/-- Lines and columns count from one and tell the offset: it is the start of the line and
the bytes before the column. They come in the order of the offsets, line before column. A
fault that is found in the text behind `base` and then placed in the whole text is where
its offset is there; its line counts the newlines before `base` too, and its column changes
only on the first line, which goes on from the last line before `base`. -/
theorem locate_is_faithful (source : Bytes) :
    (∀ offset ≤ source.length,
      let place := locate source offset
      1 ≤ place.line ∧ 1 ≤ place.column ∧
        lineStart source place.line + (place.column - 1) = offset) ∧
    (∀ first second, first < second → second ≤ source.length →
      let before := locate source first
      let behind := locate source second
      Prod.Lex (· < ·) (· < ·) (before.line, before.column) (behind.line, behind.column)) ∧
    ∀ (kind : Fault.Kind) (base offset : Nat), base ≤ source.length →
      offset ≤ source.length - base →
      let inner := ({ kind, offset } : Defect).locate (source.drop base)
      let outer := inner.rebase source base
      outer = ({ kind, offset := base + offset } : Defect).locate source ∧
      outer.location.line = inner.location.line + (source.take base).count newline ∧
      outer.location.column =
        if inner.location.line = 1 then
          inner.location.column + lastLineLength (source.take base)
        else
          inner.location.column := by
  refine ⟨?_, ?_, ?_⟩
  · intro offset within
    exact ⟨Nat.le_add_right 1 _, Nat.le_add_left 1 _, lineStart_add_column within⟩
  · intro first second before within
    exact lex_locate before within
  · intro kind base offset within inside
    exact ⟨rfl, locate_add within inside⟩

/-- The brace of the rules stands on the fourth line of the text, and behind the second
one. A fault right behind the marker stands on the line of the marker. -/
theorem locate_is_faithful_behind_marker :
    let source := Bytes.ofText "x\n%%\n\n \x7d"
    let inner := ({ kind := .strayClose, offset := 0 } : Defect).locate (source.drop 4)
    lineStart source 4 + (2 - 1) = 7 ∧
      Prod.Lex (· < ·) (· < ·) ((2, 3) : Nat × Nat) (4, 2) ∧
      (inner.rebase source 4).location.column =
        inner.location.column + lastLineLength (source.take 4) := by
  intro source inner
  rcases locate_is_faithful source with ⟨recovered, ordered, rebased⟩
  have onFirst : inner.location.line = 1 := rfl
  have moved := (rebased .strayClose 4 0 (by decide) (by decide)).2.2
  exact ⟨(recovered 7 (by decide)).2.2, ordered 4 7 (by decide) (by decide),
    moved.trans (if_pos onFirst)⟩

end Location

end GrammarTidy
