import GrammarTidy.Scanner

namespace GrammarTidy.Rules

/-! The rules section of a grammar file is laid out anew: blocks and comments
vanish, each separator brings its own line breaks, and a gap between two tokens
of one line becomes one space. -/

structure Position where
  cursor : Cursor := {}
  /-- The byte just read. The section comes right after its marker, so it starts
  with a percent sign. -/
  previous : UInt8 := Byte.percent
  /-- Where the comment starts that the scan stands in, if it does. -/
  comment : Option Nat := none
deriving DecidableEq, Repr

namespace Position

/-- Move past a byte without a look at its role. -/
def skip (position : Position) (byte : UInt8) : Position :=
  { position with cursor := position.cursor.skip byte, previous := byte }

def read (position : Position) (byte : UInt8) : Position :=
  { position with cursor := position.cursor.read byte, previous := byte }

/-! Both bytes of a comment's start are passed at once, and both bytes of its end,
so that a slash or a star never serves both. A quoted slash starts no comment, but
comments start inside blocks too. -/

def openComment (position : Position) : Position :=
  { (position.skip Byte.slash).skip Byte.star with comment := some position.cursor.offset }

def closeComment (position : Position) : Position :=
  { (position.skip Byte.star).skip Byte.slash with comment := none }

def opensComment (position : Position) (byte : UInt8) (next : Option UInt8) : Bool :=
  byte == Byte.slash && !position.cursor.nesting.quoted && next == some Byte.star

end Position

/-! ## Layout

A separator is put as one chunk with its line breaks. Of the bytes of tokens the
space bytes vanish, and a byte that comes right after a blank has one space before
it, as a chunk of its own. -/

def separator? (byte : UInt8) : Option Bytes :=
  if byte == Byte.semicolon then some [Byte.semicolon, Byte.newline, Byte.newline]
  else if byte == Byte.colon then some [Byte.colon, Byte.newline, Byte.space]
  else if byte == Byte.bar then some [Byte.newline, Byte.bar]
  else none

def tokenChunks (previous byte : UInt8) : List Bytes :=
  if Byte.isSpace byte then []
  else if Byte.isBlank previous then [[Byte.space], [byte]]
  else [[byte]]

/-- What a byte outside comments puts. Only plain bytes outside all blocks put
anything, and a quoted separator is a byte like any other. -/
def chunks (nesting : Nesting) (previous byte : UInt8) : List Bytes :=
  if nesting.role byte = .plain && nesting.depth = 0 then
    match if nesting.quoted then none else separator? byte with
    | some layout => [layout]
    | none => tokenChunks previous byte
  else
    []

def scanner (settings : Settings) : Scanner Position where
  initial := {}
  move position byte next :=
    if position.comment.isSome then
      if byte == Byte.star && next == some Byte.slash then
        .two [] position.closeComment
      else
        .one [] (position.skip byte)
    else if settings.strict && position.cursor.strays byte then
      .reject position.cursor.strayClose
    else if position.opensComment byte next then
      .two [] position.openComment
    else
      .one (chunks position.cursor.nesting position.previous byte) (position.read byte)
  objection position :=
    if settings.strict then
      match position.comment with
      | some start => some { kind := .unclosedComment, offset := start }
      | none => position.cursor.unclosedBlock
    else
      none

variable {m : Type → Type} {Refusal : Type} [Monad m]

@[specialize] def run (outlet : Outlet m Refusal) (settings : Settings) (source : Bytes) :
    ExceptT (Failure Refusal) m Tally :=
  (scanner settings).summarize outlet source
    (fun written position => position.cursor.tally source written) .rulesLaidOut

end GrammarTidy.Rules
