import GrammarTidy.Fault

namespace GrammarTidy

/-! How deep in action blocks a scan stands, where it stands in its text, and
what it counts on the way. -/

/-! ## Nesting

A quote makes the byte after it plain, and only that byte: `'{'` names a brace
and opens nothing. A quote that is itself quoted quotes the next byte all the
same. The depth is negative after more blocks were closed than opened. -/

inductive BraceRole where
  | opening
  | closing
  | plain
deriving DecidableEq, Repr

structure Nesting where
  depth : Int := 0
  quoted : Bool := false
deriving DecidableEq, Repr

namespace Nesting

def role (nesting : Nesting) (byte : UInt8) : BraceRole :=
  if nesting.quoted then .plain
  else if byte == Byte.openBrace then .opening
  else if byte == Byte.closeBrace then .closing
  else .plain

def enter (nesting : Nesting) : Nesting :=
  { nesting with depth := nesting.depth + 1 }

def leave (nesting : Nesting) : Nesting :=
  { nesting with depth := nesting.depth - 1 }

/-- Past a byte: the next one is quoted exactly when this one is a quote. -/
def after (nesting : Nesting) (byte : UInt8) : Nesting :=
  { nesting with quoted := byte == Byte.quote }

def read (nesting : Nesting) (byte : UInt8) : Nesting :=
  match nesting.role byte with
  | .opening => nesting.enter.after byte
  | .closing => nesting.leave.after byte
  | .plain => nesting.after byte

/-- A quoted brace opens nothing. -/
example : (({} : Nesting).read Byte.quote).read Byte.openBrace = {} := rfl

/-- A stray closing brace takes the depth below zero. -/
example : (({} : Nesting).read Byte.closeBrace).depth = -1 := rfl

end Nesting

/-! ## Cursors

All scans share the cursor, so that they agree on what a block is. -/

structure Cursor where
  nesting : Nesting := {}
  offset : Nat := 0
  deepest : Int := 0
  /-- Where the depth last became one by an opening brace. -/
  blockStart : Nat := 0
deriving DecidableEq, Repr

namespace Cursor

/-- Move past a byte that opens and closes nothing. -/
def skip (cursor : Cursor) (byte : UInt8) : Cursor :=
  { cursor with
    nesting := cursor.nesting.after byte
    offset := cursor.offset + 1 }

def enter (cursor : Cursor) : Cursor :=
  let nesting := cursor.nesting.enter
  { cursor with
    nesting
    deepest := max cursor.deepest nesting.depth
    blockStart := if nesting.depth = 1 then cursor.offset else cursor.blockStart }

def leave (cursor : Cursor) : Cursor :=
  { cursor with nesting := cursor.nesting.leave }

def read (cursor : Cursor) (byte : UInt8) : Cursor :=
  match cursor.nesting.role byte with
  | .opening => cursor.enter.skip byte
  | .closing => cursor.leave.skip byte
  | .plain => cursor.skip byte

/-- The byte to come is a live closing brace with no block to close. -/
def strays (cursor : Cursor) (byte : UInt8) : Bool :=
  cursor.nesting.role byte = .closing && cursor.nesting.depth ≤ 0

def strayClose (cursor : Cursor) : Defect :=
  { kind := .strayClose, offset := cursor.offset }

/-- The defect of a text that ends here inside a block: the outermost block is
the one left open. -/
def unclosedBlock (cursor : Cursor) : Option Defect :=
  if cursor.nesting.depth > 0 then
    some { kind := .unclosedBlock cursor.nesting.depth, offset := cursor.blockStart }
  else
    none

@[simp] theorem nesting_read (cursor : Cursor) (byte : UInt8) :
    (cursor.read byte).nesting = cursor.nesting.read byte := by
  unfold read Nesting.read
  cases cursor.nesting.role byte <;> rfl

@[simp] theorem offset_read (cursor : Cursor) (byte : UInt8) :
    (cursor.read byte).offset = cursor.offset + 1 := by
  unfold read
  cases cursor.nesting.role byte <;> rfl

end Cursor

/-! ## Tallies

What a finished scan counted: the bytes that it read and handed to its outlet,
the greatest depth of blocks and the depth at the end, and where the rules
section starts, if its marker was found. -/

structure Tally where
  bytesIn : Nat
  bytesOut : Nat
  maxDepth : Int
  finalDepth : Int
  rulesOffset : Option Nat
deriving DecidableEq, Repr

namespace Tally

/-- The tally of two scans of adjacent texts, each with its depth counted from
zero. The depth at the end is that of the second. -/
def followedBy (first second : Tally) : Tally where
  bytesIn := first.bytesIn + second.bytesIn
  bytesOut := first.bytesOut + second.bytesOut
  maxDepth := max first.maxDepth second.maxDepth
  finalDepth := second.finalDepth
  rulesOffset := first.rulesOffset.or second.rulesOffset

end Tally

/-- The tally of a scan of `source` that ended at a cursor. -/
def Cursor.tally (cursor : Cursor) (source : Bytes) (written : Nat) : Tally where
  bytesIn := source.length
  bytesOut := written
  maxDepth := cursor.deepest
  finalDepth := cursor.nesting.depth
  rulesOffset := none

end GrammarTidy
