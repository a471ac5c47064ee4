namespace GrammarTidy

/-! Grammar files are read as raw bytes. No encoding is assumed: every byte
that shapes a scan is an ASCII byte, and all others are carried through. -/

abbrev Bytes := List UInt8

def Bytes.ofText (text : String) : Bytes := text.toUTF8.data.toList

namespace Byte

abbrev tab : UInt8 := 0x09
abbrev newline : UInt8 := 0x0A
abbrev carriageReturn : UInt8 := 0x0D
abbrev space : UInt8 := 0x20
abbrev percent : UInt8 := 0x25
abbrev quote : UInt8 := 0x27
abbrev star : UInt8 := 0x2A
abbrev slash : UInt8 := 0x2F
abbrev colon : UInt8 := 0x3A
abbrev semicolon : UInt8 := 0x3B
abbrev openBrace : UInt8 := 0x7B
abbrev bar : UInt8 := 0x7C
abbrev closeBrace : UInt8 := 0x7D

/-! Line breaks survive inside a hollowed block, so that lines keep their
numbers. Blanks stand for a gap between two tokens of a line. Both together are
what the layout of a rules section decides anew. -/

def isLineBreak (byte : UInt8) : Bool :=
  byte == newline || byte == carriageReturn

def isBlank (byte : UInt8) : Bool :=
  byte == space || byte == tab

def isSpace (byte : UInt8) : Bool :=
  isBlank byte || isLineBreak byte

/-- The four space bytes, and no others such as form feed. -/
example : ([0x20, 0x09, 0x0A, 0x0D, 0x0C, 0x0B] : Bytes).map isSpace =
    [true, true, true, true, false, false] := rfl

end Byte

end GrammarTidy
