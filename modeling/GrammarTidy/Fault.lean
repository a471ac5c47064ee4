import GrammarTidy.Byte

namespace GrammarTidy

/-! What can be wrong with a grammar file, and where. -/

/-! ## Locations

A place in a file is a byte offset from zero, and the line and column that a
person would count, both from one. Only newlines end a line, and a column counts
bytes. -/

structure Location where
  offset : Nat
  line : Nat
  column : Nat
deriving DecidableEq, Repr

namespace Location

/-- The offset just past the last newline of `source`. -/
def lastLineStart (source : Bytes) : Nat :=
  source.length - (source.reverse.takeWhile (· != Byte.newline)).length

def locate (source : Bytes) (offset : Nat) : Location :=
  let before := source.take offset
  { offset
    line := 1 + before.count Byte.newline
    column := offset - lastLineStart before + 1 }

/-- The first byte is at line one, column one. -/
example : locate [Byte.closeBrace] 0 = ⟨0, 1, 1⟩ := rfl

/-- The byte after a newline starts the next line. -/
example : locate [Byte.bar, Byte.newline, Byte.closeBrace] 2 = ⟨2, 2, 1⟩ := rfl

end Location

/-! ## Faults

A defect is a kind of fault at a byte offset, before lines are counted. -/

inductive Fault.Kind where
  | strayClose
  | unclosedBlock (depth : Int)
  | unclosedComment
deriving DecidableEq, Repr

def Fault.Kind.text : Fault.Kind → String
  | .strayClose => "unbalanced '\x7d'"
  | .unclosedBlock depth => s!"unclosed action block (depth {depth})"
  | .unclosedComment => "unterminated comment"

structure Defect where
  kind : Fault.Kind
  offset : Nat
deriving DecidableEq, Repr

structure Fault where
  kind : Fault.Kind
  location : Location
deriving DecidableEq, Repr

def Defect.locate (defect : Defect) (source : Bytes) : Fault :=
  { kind := defect.kind, location := Location.locate source defect.offset }

namespace Fault

/-- The same fault, found in the text that starts at `base` of `whole`, with
its place in `whole`. -/
def rebase (fault : Fault) (whole : Bytes) (base : Nat) : Fault :=
  { fault with location := Location.locate whole (base + fault.location.offset) }

def message (fault : Fault) : String :=
  s!"{fault.kind.text} at {fault.location.line}:{fault.location.column}"

end Fault

end GrammarTidy
