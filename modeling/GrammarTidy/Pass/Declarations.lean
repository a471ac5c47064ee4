import GrammarTidy.Scanner

namespace GrammarTidy.Declarations

/-! The declarations section of a grammar file runs up to its marker, two
percent signs side by side. It is copied without its blocks; the marker is
copied too, and followed by an empty line. The result also says where the rules
section starts, if there is one. -/

/-- Where the scan stands, and whether the byte just read is a percent sign that
may be half of a marker. -/
structure Position where
  cursor : Cursor := {}
  afterPercent : Bool := false
  /-- Where the rules section starts, once the marker was read. -/
  rulesStart : Option Nat := none
deriving DecidableEq, Repr

def isMarkerHalf (settings : Settings) (nesting : Nesting) (byte : UInt8) : Bool :=
  byte == Byte.percent &&
    (!settings.topLevelMarker || (!nesting.quoted && nesting.depth = 0))

def keeps (nesting : Nesting) (byte : UInt8) : Bool :=
  nesting.role byte = .plain && nesting.depth = 0

/-- The empty line after the marker, put as one chunk. -/
def markerBreak : Bytes := [Byte.newline, Byte.newline]

/-- The scan stops at the second half of the first marker. -/
def scanner (settings : Settings) : Scanner Position where
  initial := {}
  move position byte _ :=
    let cursor := position.cursor
    if settings.strict && cursor.strays byte then
      .reject cursor.strayClose
    else
      let chunks := if keeps cursor.nesting byte then [[byte]] else []
      let half := isMarkerHalf settings cursor.nesting byte
      let next := { position with cursor := cursor.read byte, afterPercent := half }
      if half && position.afterPercent then
        .stop (chunks ++ [markerBreak]) { next with rulesStart := some next.cursor.offset }
      else
        .one chunks next
  objection position :=
    if settings.strict then position.cursor.unclosedBlock else none

/-- Only the bytes before the rules section were read. -/
def Position.tally (position : Position) (source : Bytes) (written : Nat) : Tally :=
  { position.cursor.tally source written with
    bytesIn := position.rulesStart.getD source.length
    rulesOffset := position.rulesStart }

variable {m : Type → Type} {Refusal : Type} [Monad m]

@[specialize] def run (outlet : Outlet m Refusal) (settings : Settings) (source : Bytes) :
    ExceptT (Failure Refusal) m (Option Nat × Tally) :=
  (scanner settings).summarize outlet source
    (fun written position => (position.rulesStart, position.tally source written))
    fun (rulesStart, tally) => .declarationsScanned rulesStart tally

end GrammarTidy.Declarations
