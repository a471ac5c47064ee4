import GrammarTidy.Cursor

/-! The depth of blocks as a count over positions. A scan carries the depth with
it; here it is read off the text, so that the two can be compared. -/

namespace GrammarTidy

open Byte

theorem Byte.ne_of_isSpace {byte other : UInt8} (space : isSpace byte = true)
    (solid : isSpace other = false) : byte ≠ other := by
  intro same
  rw [same, solid] at space
  cases space

/-! ## Nesting, one byte at a time -/

namespace Nesting

@[simp] theorem quoted_read (nesting : Nesting) (byte : UInt8) :
    (nesting.read byte).quoted = (byte == quote) := by
  unfold read
  cases nesting.role byte <;> rfl

theorem read_of_opening {nesting : Nesting} {byte : UInt8}
    (opening : nesting.role byte = .opening) :
    nesting.read byte = { depth := nesting.depth + 1, quoted := byte == quote } := by
  rw [read, opening]
  rfl

theorem read_of_closing {nesting : Nesting} {byte : UInt8}
    (closing : nesting.role byte = .closing) :
    nesting.read byte = { depth := nesting.depth - 1, quoted := byte == quote } := by
  rw [read, closing]
  rfl

theorem read_of_plain {nesting : Nesting} {byte : UInt8}
    (plain : nesting.role byte = .plain) :
    nesting.read byte = { depth := nesting.depth, quoted := byte == quote } := by
  rw [read, plain]
  rfl

theorem role_eq_opening_iff {nesting : Nesting} {byte : UInt8} :
    nesting.role byte = .opening ↔ nesting.quoted = false ∧ byte = openBrace := by
  unfold role
  cases nesting.quoted <;> by_cases opens : byte = openBrace <;>
    by_cases closes : byte = closeBrace <;> simp [opens, closes]

theorem role_eq_closing_iff {nesting : Nesting} {byte : UInt8} :
    nesting.role byte = .closing ↔ nesting.quoted = false ∧ byte = closeBrace := by
  have different : closeBrace ≠ openBrace := by decide
  unfold role
  cases nesting.quoted <;> by_cases closes : byte = closeBrace <;>
    by_cases opens : byte = openBrace <;> simp_all

theorem role_of_not_brace (nesting : Nesting) {byte : UInt8} (notOpen : byte ≠ openBrace)
    (notClose : byte ≠ closeBrace) : nesting.role byte = .plain := by
  simp [role, notOpen, notClose]

theorem role_of_space (nesting : Nesting) {byte : UInt8} (space : isSpace byte = true) :
    nesting.role byte = .plain :=
  nesting.role_of_not_brace (ne_of_isSpace space rfl) (ne_of_isSpace space rfl)

theorem role_of_quoted {nesting : Nesting} (quoted : nesting.quoted = true) (byte : UInt8) :
    nesting.role byte = .plain := by
  simp [role, quoted]

end Nesting

/-! ## Braces at positions -/

def quotedAt (text : Bytes) (position : Nat) : Bool :=
  0 < position && text[position - 1]? == some quote

/-- What the byte at a position does to the nesting. -/
def roleAt (text : Bytes) (position : Nat) : BraceRole :=
  if quotedAt text position then .plain
  else if text[position]? = some openBrace then .opening
  else if text[position]? = some closeBrace then .closing
  else .plain

theorem roleAt_percent {text : Bytes} {position : Nat} (here : text[position]? = some percent) :
    roleAt text position = .plain := by
  rw [roleAt, here]
  split <;> rfl

/-- The opening braces before a position, less the closing ones. -/
def depthBefore (role : Nat → BraceRole) (position : Nat) : Int :=
  (List.range position).countP (role · = .opening) -
    (List.range position).countP (role · = .closing)

@[simp] theorem depthBefore_zero (role : Nat → BraceRole) : depthBefore role 0 = 0 := rfl

theorem depthBefore_succ (role : Nat → BraceRole) (position : Nat) :
    depthBefore role (position + 1) =
      match role position with
      | .opening => depthBefore role position + 1
      | .closing => depthBefore role position - 1
      | .plain => depthBefore role position := by
  unfold depthBefore
  rw [List.range_succ, List.countP_append, List.countP_append]
  cases same : role position <;> simp [same] <;> omega

theorem drop_eq_cons {text rest : Bytes} {byte : UInt8} {position : Nat}
    (split : text.drop position = byte :: rest) :
    text[position]? = some byte ∧ text.drop (position + 1) = rest ∧ position < text.length := by
  have within : position < text.length := by
    apply Nat.lt_of_not_le
    intro past
    rw [List.drop_eq_nil_of_le past] at split
    cases split
  rw [List.drop_eq_getElem_cons within] at split
  rcases List.cons_eq_cons.mp split with ⟨head, tail⟩
  exact ⟨by rw [List.getElem?_eq_getElem within, head], tail, within⟩

theorem quotedAt_succ {text : Bytes} {position : Nat} {byte : UInt8}
    (here : text[position]? = some byte) :
    quotedAt text (position + 1) = (byte == quote) := by
  simp [quotedAt, here]

/-! ## First positions -/

def firstFrom (test : Nat → Bool) (lower upper : Nat) : Option Nat :=
  (List.range' lower (upper - lower)).find? test

theorem firstFrom_eq_some_iff {test : Nat → Bool} {lower upper position : Nat} :
    firstFrom test lower upper = some position ↔
      test position = true ∧ lower ≤ position ∧ position < upper ∧
        ∀ earlier, lower ≤ earlier → earlier < position → test earlier = false := by
  rw [firstFrom, List.find?_range'_eq_some]
  simp only [List.mem_range'_1, Bool.not_eq_true']
  constructor
  · rintro ⟨passes, ⟨above, below⟩, first⟩
    exact ⟨passes, above, by omega, first⟩
  · rintro ⟨passes, above, below, first⟩
    exact ⟨passes, ⟨above, by omega⟩, first⟩

theorem firstFrom_eq_none_iff {test : Nat → Bool} {lower upper : Nat} :
    firstFrom test lower upper = none ↔
      ∀ position, lower ≤ position → position < upper → test position = false := by
  rw [firstFrom, List.find?_range'_eq_none]
  simp only [Bool.not_eq_true']
  constructor
  · intro fails position above below
    exact fails position above (by omega)
  · intro fails position above below
    exact fails position above (by omega)

theorem firstFrom_self (test : Nat → Bool) (lower : Nat) : firstFrom test lower lower = none := by
  rw [firstFrom_eq_none_iff]
  intro position above below
  omega

theorem firstFrom_of_test {test : Nat → Bool} {lower upper : Nat} (passes : test lower = true)
    (below : lower < upper) : firstFrom test lower upper = some lower := by
  rw [firstFrom_eq_some_iff]
  exact ⟨passes, Nat.le_refl _, below, fun earlier above before => by omega⟩

theorem firstFrom_succ {test : Nat → Bool} {lower : Nat} (upper : Nat)
    (fails : test lower = false) :
    firstFrom test lower upper = firstFrom test (lower + 1) upper := by
  cases found : firstFrom test (lower + 1) upper with
  | some position =>
      rw [firstFrom_eq_some_iff] at found ⊢
      rcases found with ⟨passes, above, below, first⟩
      refine ⟨passes, by omega, below, fun earlier above below => ?_⟩
      rcases Nat.eq_or_lt_of_le above with rfl | later
      · exact fails
      · exact first earlier later below
  | none =>
      rw [firstFrom_eq_none_iff] at found ⊢
      intro position above below
      rcases Nat.eq_or_lt_of_le above with rfl | later
      · exact fails
      · exact found position later below

/-! ## Cursors and positions -/

namespace Cursor

theorem strays_of_positive {cursor : Cursor} (positive : 0 < cursor.nesting.depth)
    (byte : UInt8) : cursor.strays byte = false := by
  simp [strays, Int.not_le.mpr positive]

/-- A cursor knows the depth at its offset, and where the outermost open block
started. -/
structure Tracks (cursor : Cursor) (role : Nat → BraceRole) : Prop where
  depth : cursor.nesting.depth = depthBefore role cursor.offset
  block : 0 < cursor.nesting.depth →
    role cursor.blockStart = .opening ∧ cursor.blockStart < cursor.offset ∧
      depthBefore role cursor.blockStart = 0 ∧
      ∀ position, cursor.blockStart < position → position ≤ cursor.offset →
        0 < depthBefore role position

theorem tracks_initial (role : Nat → BraceRole) : ({} : Cursor).Tracks role where
  depth := rfl
  block positive := absurd positive (by decide)

variable {cursor next : Cursor} {role : Nat → BraceRole}

private theorem Tracks.extend (tracks : cursor.Tracks role)
    (depth : next.nesting.depth = depthBefore role (cursor.offset + 1))
    (offset : next.offset = cursor.offset + 1) (block : next.blockStart = cursor.blockStart)
    (positive : 0 < next.nesting.depth → 0 < cursor.nesting.depth) : next.Tracks role where
  depth := by rw [offset, depth]
  block deeper := by
    rcases tracks.block (positive deeper) with ⟨opening, before, zero, above⟩
    rw [block, offset]
    refine ⟨opening, Nat.lt_succ_of_lt before, zero, ?_⟩
    intro position after within
    rcases Nat.lt_or_eq_of_le within with earlier | last
    · exact above position after (Nat.le_of_lt_succ earlier)
    · rw [last, ← depth]
      exact deeper

theorem Tracks.skip (tracks : cursor.Tracks role) (byte : UInt8)
    (plain : role cursor.offset = .plain) : (cursor.skip byte).Tracks role := by
  have depth : (cursor.skip byte).nesting.depth = depthBefore role (cursor.offset + 1) := by
    rw [depthBefore_succ, plain]
    exact tracks.depth
  exact tracks.extend depth rfl rfl id

theorem Tracks.read (tracks : cursor.Tracks role) {byte : UInt8}
    (same : role cursor.offset = cursor.nesting.role byte) :
    (cursor.read byte).Tracks role := by
  have after := depthBefore_succ role cursor.offset
  rw [same, ← tracks.depth] at after
  cases byteRole : cursor.nesting.role byte with
  | plain =>
      rw [Cursor.read, byteRole]
      exact tracks.skip byte (same.trans byteRole)
  | closing =>
      rw [byteRole] at after
      have left : cursor.read byte = cursor.leave.skip byte := by rw [Cursor.read, byteRole]
      have lower : (cursor.leave.skip byte).nesting.depth = cursor.nesting.depth - 1 := rfl
      rw [left]
      refine tracks.extend after.symm rfl rfl fun positive => ?_
      omega
  | opening =>
      rw [byteRole] at after same
      have entered : cursor.read byte = cursor.enter.skip byte := by
        rw [Cursor.read, byteRole]
      have deeper : (cursor.enter.skip byte).nesting.depth = cursor.nesting.depth + 1 := rfl
      rw [entered]
      by_cases outermost : cursor.nesting.depth + 1 = 1
      · have start : (cursor.enter.skip byte).blockStart = cursor.offset := if_pos outermost
        refine ⟨after.symm, fun _ => ?_⟩
        rw [start]
        refine ⟨same, Nat.lt_succ_self _, ?_, ?_⟩
        · rw [← tracks.depth]
          omega
        · intro position later within
          have last : position = cursor.offset + 1 := Nat.le_antisymm within later
          rw [last, after, outermost]
          exact Int.one_pos
      · have start : (cursor.enter.skip byte).blockStart = cursor.blockStart :=
          if_neg outermost
        refine tracks.extend after.symm rfl start fun positive => ?_
        omega

/-- A cursor that a scan without comments comes to, with `rest` of `text` to
read. -/
structure Follows (cursor : Cursor) (text rest : Bytes) : Prop where
  rest : text.drop cursor.offset = rest
  within : cursor.offset ≤ text.length
  quoted : cursor.nesting.quoted = quotedAt text cursor.offset
  tracks : cursor.Tracks (roleAt text)

theorem follows_initial (text : Bytes) : ({} : Cursor).Follows text text where
  rest := rfl
  within := Nat.zero_le _
  quoted := rfl
  tracks := tracks_initial _

variable {text rest : Bytes} {byte : UInt8}

theorem Follows.roleAt_eq (follows : cursor.Follows text (byte :: rest)) :
    roleAt text cursor.offset = cursor.nesting.role byte := by
  rcases drop_eq_cons follows.rest with ⟨here, -, -⟩
  rw [roleAt, ← follows.quoted, here]
  simp [Nesting.role]

theorem Follows.read (follows : cursor.Follows text (byte :: rest)) :
    (cursor.read byte).Follows text rest := by
  rcases drop_eq_cons follows.rest with ⟨here, tail, within⟩
  have offset := cursor.offset_read byte
  refine ⟨offset ▸ tail, offset ▸ within, ?_, follows.tracks.read follows.roleAt_eq⟩
  rw [nesting_read, Nesting.quoted_read, offset, quotedAt_succ here]

theorem Follows.offset_eq (follows : cursor.Follows text []) : cursor.offset = text.length :=
  Nat.le_antisymm follows.within (List.drop_eq_nil_iff.mp follows.rest)

end Cursor

end GrammarTidy
