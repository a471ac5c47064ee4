import GrammarTidy.Proofs.Comments
import Mathlib.Data.List.Basic

/-! The layout of a rules section without a scan: what each position comes to is
decided by where it stands in the text, and the output is the positions' layouts
one after the other. -/

namespace GrammarTidy.Rules

open Byte

/-! ## What a position comes to -/

/-- A position outside comments and blocks that holds no live brace. -/
def liesOpen (text : Bytes) (position : Nat) : Bool :=
  !inComment text position && depthBefore (liveRoleAt text) position = 0 &&
    roleAt text position = .plain

def afterBlank (text : Bytes) (position : Nat) : Bool :=
  0 < position && (text[position - 1]? == some space || text[position - 1]? == some tab)

def openLayout (quoted afterBlank : Bool) (byte : UInt8) : Bytes :=
  if byte = semicolon ∧ quoted = false then [semicolon, newline, newline]
  else if byte = colon ∧ quoted = false then [colon, newline, space]
  else if byte = bar ∧ quoted = false then [newline, bar]
  else if byte = space ∨ byte = tab ∨ byte = newline ∨ byte = carriageReturn then []
  else if afterBlank then [space, byte]
  else [byte]

def layoutAt (text : Bytes) (position : Nat) : Bytes :=
  match text[position]? with
  | none => []
  | some byte =>
      if liesOpen text position then
        openLayout (quotedAt text position) (afterBlank text position) byte
      else
        []

/-- The byte at a position, if it lies open and is not one of the space bytes. -/
def visibleAt? (text : Bytes) (position : Nat) : Option UInt8 :=
  if liesOpen text position then text[position]?.filter (!isSpace ·) else none

theorem layoutAt_of_inComment {text : Bytes} {position : Nat}
    (inside : inComment text position = true) : layoutAt text position = [] := by
  unfold layoutAt liesOpen
  cases text[position]? <;> simp [inside]

private theorem isSpace_iff {byte : UInt8} :
    isSpace byte = true ↔ byte = space ∨ byte = tab ∨ byte = newline ∨ byte = carriageReturn := by
  simp [isSpace, isBlank, isLineBreak, or_assoc]

private theorem filter_openLayout (quoted afterBlank : Bool) (byte : UInt8) :
    (openLayout quoted afterBlank byte).filter (!isSpace ·) =
      if isSpace byte then [] else [byte] := by
  have spaces : isSpace space = true ∧ isSpace newline = true := ⟨rfl, rfl⟩
  have marks : isSpace semicolon = false ∧ isSpace colon = false ∧ isSpace bar = false :=
    ⟨rfl, rfl, rfl⟩
  unfold openLayout
  split
  · next separates => simp [separates.1, spaces, marks]
  split
  · next separates => simp [separates.1, spaces, marks]
  split
  · next separates => simp [separates.1, spaces, marks]
  split
  · next blank => simp [isSpace_iff.mpr blank]
  · next solid =>
      have shows : isSpace byte = false := Bool.eq_false_iff.mpr fun space =>
        solid (isSpace_iff.mp space)
      split <;> simp [shows, spaces]

theorem filter_layoutAt (text : Bytes) (position : Nat) :
    (layoutAt text position).filter (!isSpace ·) = (visibleAt? text position).toList := by
  unfold layoutAt visibleAt?
  cases liesOpen text position with
  | false => cases text[position]? <;> rfl
  | true =>
      cases text[position]? with
      | none => rfl
      | some byte =>
          dsimp only
          rw [if_pos rfl, if_pos rfl, filter_openLayout]
          cases space : isSpace byte <;> simp [space, Option.filter]

/-! ## What a scan remembers -/

/-- The byte before a position. A rules section comes right after the percent
signs of its marker. -/
def previousAt (text : Bytes) : Nat → UInt8
  | 0 => percent
  | before + 1 => text[before]?.getD percent

private theorem previousAt_succ {text : Bytes} {position : Nat} {byte : UInt8}
    (here : text[position]? = some byte) : previousAt text (position + 1) = byte := by
  rw [previousAt, here]
  rfl

private theorem isBlank_previousAt (text : Bytes) (position : Nat) :
    isBlank (previousAt text position) = afterBlank text position := by
  cases position with
  | zero => rfl
  | succ before =>
      rw [previousAt, afterBlank]
      cases here : text[before]? with
      | none =>
          rw [Nat.add_sub_cancel, here]
          rfl
      | some byte => simp [here, isBlank]

private theorem flatten_tokenChunks (previous byte : UInt8) :
    (tokenChunks previous byte).flatten =
      if byte = space ∨ byte = tab ∨ byte = newline ∨ byte = carriageReturn then []
      else if isBlank previous then [space, byte]
      else [byte] := by
  unfold tokenChunks
  simp only [isSpace_iff]
  split
  · rfl
  · split <;> rfl

private theorem flatten_separator (quoted : Bool) (previous byte : UInt8) :
    (match if quoted then none else separator? byte with
      | some layout => [layout]
      | none => tokenChunks previous byte).flatten =
      openLayout quoted (isBlank previous) byte := by
  unfold openLayout separator?
  rw [← flatten_tokenChunks]
  cases quoted with
  | true => simp
  | false =>
      simp only [beq_iff_eq, and_true, Bool.false_eq_true, if_false]
      by_cases ends : byte = semicolon
      · subst ends
        rfl
      by_cases starts : byte = colon
      · subst starts
        rfl
      by_cases turns : byte = bar
      · subst turns
        rfl
      · simp only [ends, starts, turns, if_false]

theorem flatten_chunks_eq (nesting : Nesting) (previous byte : UInt8) :
    (chunks nesting previous byte).flatten =
      if nesting.depth = 0 ∧ nesting.role byte = .plain then
        openLayout nesting.quoted (isBlank previous) byte
      else
        [] := by
  unfold chunks
  by_cases shows : nesting.depth = 0 ∧ nesting.role byte = .plain
  · rw [if_pos shows, shows.1, shows.2]
    exact flatten_separator nesting.quoted previous byte
  · rw [if_neg shows, if_neg (by simpa [and_comm] using shows)]
    rfl

def Position.Recalls (position : Position) (text : Bytes) : Prop :=
  position.previous = previousAt text position.cursor.offset

namespace Position

variable {position : Position} {text rest later : Bytes} {byte : UInt8}

theorem Follows.previousAt_next (follows : position.Follows text (byte :: rest)) :
    previousAt text (position.cursor.offset + 1) = byte := by
  rcases drop_eq_cons follows.rest with ⟨here, -, -⟩
  exact previousAt_succ here

theorem Follows.previousAt_pair {first : UInt8}
    (follows : position.Follows text (first :: byte :: rest)) :
    previousAt text (position.cursor.offset + 2) = byte := by
  rcases drop_eq_cons follows.rest with ⟨-, tail, -⟩
  rcases drop_eq_cons tail with ⟨next, -, -⟩
  exact previousAt_succ next

theorem Follows.flatten_chunks (follows : position.Follows text (byte :: rest))
    (recalls : position.Recalls text) (outside : position.comment = none)
    (ordinary : position.opensComment byte rest.head? = false) :
    (chunks position.cursor.nesting position.previous byte).flatten =
      layoutAt text position.cursor.offset := by
  rcases drop_eq_cons follows.rest with ⟨here, -, -⟩
  rw [flatten_chunks_eq, layoutAt, here, recalls, isBlank_previousAt, follows.quoted,
    follows.tracks.depth, ← follows.roleAt_eq]
  simp [liesOpen, follows.not_inComment outside ordinary]

end Position

theorem output_of_follows {settings : Settings} (lenient : settings.strict = false)
    {position : Position} {text rest : Bytes} (follows : position.Follows text rest) :
    position.Recalls text →
      ((scanner settings).trace rest position).output =
        (List.range' position.cursor.offset rest.length).flatMap (layoutAt text) := by
  refine Position.follows_induction (motive := fun position rest => position.Recalls text →
    ((scanner settings).trace rest position).output =
      (List.range' position.cursor.offset rest.length).flatMap (layoutAt text))
    ?finish ?close ?skip ?enter ?read follows
  case finish => exact fun _ _ _ => rfl
  case close =>
    intro position later follows inside induction recalls
    rcases Option.isSome_iff_exists.mp inside with ⟨start, same⟩
    have first := layoutAt_of_inComment (follows.inComment_inside same)
    have second := layoutAt_of_inComment (follows.inComment_close same).2
    have next : position.closeComment.Recalls text := follows.previousAt_pair.symm
    rw [trace_close settings inside, induction next, List.length_cons, List.length_cons,
      List.range'_succ, List.range'_succ, List.flatMap_cons, List.flatMap_cons, first, second]
    rfl
  case skip =>
    intro position byte rest follows inside going induction recalls
    rcases Option.isSome_iff_exists.mp inside with ⟨start, same⟩
    have nothing := layoutAt_of_inComment (follows.inComment_inside same)
    have next : (position.skip byte).Recalls text := follows.previousAt_next.symm
    rw [trace_skip settings inside going, induction next, List.length_cons, List.range'_succ,
      List.flatMap_cons, nothing]
    rfl
  case enter =>
    intro position later follows outside live induction recalls
    rcases follows.inComment_enter outside live with ⟨-, first, second⟩
    have next : position.openComment.Recalls text := follows.previousAt_pair.symm
    rw [trace_open settings outside live, induction next, List.length_cons, List.length_cons,
      List.range'_succ, List.range'_succ, List.flatMap_cons, List.flatMap_cons,
      layoutAt_of_inComment first, layoutAt_of_inComment second]
    rfl
  case read =>
    intro position byte rest follows outside ordinary induction recalls
    have next : (position.read byte).Recalls text := by
      rw [Position.Recalls, Position.offset_read]
      exact follows.previousAt_next.symm
    rw [trace_read_of_lenient lenient outside ordinary, Scanner.Trace.output_after,
      induction next, follows.flatten_chunks recalls outside ordinary, Position.offset_read,
      List.length_cons, List.range'_succ, List.flatMap_cons]

/-- A lenient scan of a rules section puts what its positions come to, one after the
other. So every visible byte comes out once, and in its place. -/
theorem run_eq_layoutAt (topLevelMarker : Bool) (source : Bytes) :
    let ran := Outlet.inMemory (Rules.run · { topLevelMarker } source)
    let positions := List.range source.length
    (∃ tally, ran.1 = .ok tally) ∧ ran.2 = positions.flatMap (layoutAt source) ∧
      ran.2.filter (!isSpace ·) = positions.filterMap (visibleAt? source) := by
  intro ran positions
  have same : ran = _ := inMemory_run { topLevelMarker } source
  have laidOut : Rules.output { topLevelMarker } source =
      positions.flatMap (layoutAt source) := by
    unfold positions
    rw [List.range_eq_range']
    exact output_of_follows rfl (Position.follows_initial source) rfl
  rw [same]
  refine ⟨result_of_lenient rfl source, laidOut, ?_⟩
  dsimp only
  rw [laidOut, List.filter_flatMap, List.filterMap_eq_flatMap_toList]
  exact congrArg (positions.flatMap ·) (funext (filter_layoutAt source))

end GrammarTidy.Rules
