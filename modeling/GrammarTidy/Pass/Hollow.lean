import GrammarTidy.Scanner

namespace GrammarTidy.Hollow

/-! Hollowing a grammar file: every action block keeps its outer braces and the
line breaks inside, and loses the rest. Text outside the blocks stays as it is,
so that everything kept is still on its own line. -/

def keeps (nesting : Nesting) (byte : UInt8) : Bool :=
  match nesting.role byte with
  | .opening => nesting.depth = 0
  | .closing => nesting.depth = 1
  | .plain => nesting.depth = 0 || Byte.isLineBreak byte

/-- Every byte kept is a chunk of its own. -/
def scanner (settings : Settings) : Scanner Cursor where
  initial := {}
  move cursor byte _ :=
    if settings.strict && cursor.strays byte then
      .reject cursor.strayClose
    else
      .one (if keeps cursor.nesting byte then [[byte]] else []) (cursor.read byte)
  objection cursor :=
    if settings.strict then cursor.unclosedBlock else none

variable {m : Type → Type} {Refusal : Type} [Monad m]

@[specialize] def run (outlet : Outlet m Refusal) (settings : Settings) (source : Bytes) :
    ExceptT (Failure Refusal) m Tally :=
  (scanner settings).summarize outlet source
    (fun written cursor => cursor.tally source written) .blocksHollowed

end GrammarTidy.Hollow
