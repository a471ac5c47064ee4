import GrammarTidy.Command.Run

namespace GrammarTidy

open Command (Host LoadError Loaded SystemError)

/-! The program on real files. A failure of the system is a value, with the
number and the words that the system gave it. -/

namespace Main

def systemError : IO.Error → SystemError
  | .otherError code details | .resourceBusy code details | .resourceVanished code details
  | .unsupportedOperation code details | .hardwareFault code details
  | .unsatisfiedConstraints code details | .illegalOperation code details
  | .protocolError code details | .timeExpired code details
  | .alreadyExists _ code details | .interrupted _ code details
  | .noFileOrDirectory _ code details | .invalidArgument _ code details
  | .permissionDenied _ code details | .resourceExhausted _ code details
  | .inappropriateType _ code details | .noSuchThing _ code details =>
      { code := code.toNat, reason := details }
  | .unexpectedEof => { code := 0, reason := "unexpected end of file" }
  | .userError text => { code := 0, reason := text }

def attempt {α : Type} (action : IO α) : ExceptT SystemError IO α :=
  ExceptT.mk do
    try
      return .ok (← action)
    catch error =>
      return .error (systemError error)

/-- The size that the system announces for a file, zero if it announces none. -/
def announcedSize (path : String) : IO Nat := do
  try
    let metadata ← ((← IO.currentDir) / path).metadata
    return metadata.byteSize.toNat
  catch _ =>
    return 0

def load (path : String) : ExceptT LoadError IO Loaded := do
  let handle ← (attempt (IO.FS.Handle.mk path .read)).adapt .cannotOpen
  let announced ← announcedSize path
  let contents ← (attempt handle.readBinToEnd).adapt .cannotRead
  return { announced, contents := contents.data.toList }

/-- Make or empty a file. Every write goes through to the system at once, so that
a refusal belongs to the bytes that were refused. -/
def create (path : String) :
    ExceptT SystemError IO (Bytes → ExceptT SystemError IO Unit) := do
  let handle ← attempt (IO.FS.Handle.mk path .write)
  return fun bytes => attempt do
    handle.write (ByteArray.mk bytes.toArray)
    handle.flush

def host : Host IO where
  load := load
  create := create
  print text := IO.print text
  report line := IO.eprintln line

end Main

end GrammarTidy

/-- The exit code is two for a command line that is not understood, one for a run
that failed, and zero otherwise. -/
def main (words : List String) : IO UInt32 :=
  GrammarTidy.Command.run GrammarTidy.Main.host words
