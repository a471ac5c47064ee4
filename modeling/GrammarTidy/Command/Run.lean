import GrammarTidy.Command.Invocation
import GrammarTidy.Command.Log
import GrammarTidy.Outlet.Buffered

namespace GrammarTidy.Command

/-! Carrying out a command line: load the input, scan it into the output, and
tell what happened. What is run answers with an exit code. -/

variable {m : Type → Type} [Monad m]

namespace Invocation

/-- The room of the buffer before the output, in bytes. -/
def bufferRoom : Nat := 8192

def readInput (invocation : Invocation) (host : Host m) : ExceptT Trouble m Bytes := do
  let loaded ← (host.load invocation.input).adapt (.loading invocation.input)
  let read := loaded.contents.length
  if read ≠ loaded.announced then
    host.log invocation.level (.sizeChanged invocation.input loaded.announced read)
  return loaded.contents

def scanTrouble (invocation : Invocation) : Failure SystemError → OutputTrouble
  | .refused cause => .cannotWrite invocation.output cause
  | .faulty fault => .faulty fault

/-- Scan `source` into the output. What was put before a failure stays there. -/
def writeOutput (invocation : Invocation) (host : Host m) (source : Bytes) :
    ExceptT OutputTrouble m Tally := do
  let write ← (host.create invocation.output).adapt (.cannotCreate invocation.output)
  ((host.outlet invocation.level write).withBuffer bufferRoom fun buffered =>
    invocation.mode.run buffered invocation.settings source).adapt invocation.scanTrouble

/-- Carry out an invocation up to the first trouble. The input is loaded before
the output is touched, so both can be one file. -/
def perform (invocation : Invocation) (host : Host m) : ExceptT Trouble m Unit := do
  let source ← invocation.readInput host
  host.log invocation.level (.loaded invocation.mode invocation.input source.length)
  let tally ← (invocation.writeOutput host source).adapt (.processing invocation.input)
  host.log invocation.level (.finished tally)
  if tally.finalDepth ≠ 0 then
    host.log invocation.level (.unbalanced tally.finalDepth)
  host.print (invocation.input ++ " -> " ++ invocation.output ++ "\n")

def run (invocation : Invocation) (host : Host m) : m UInt32 := do
  match ← (invocation.perform host).run with
  | .ok () => return 0
  | .error trouble =>
      host.log invocation.level (.failed trouble)
      host.report ("Error: " ++ trouble.text)
      return 1

end Invocation

def versionText : String := "yyscrub 0.1.0\n"

def usageLine : String := "Usage: yyscrub [OPTIONS] <-c|-p> <INPUT> <OUTPUT>\n"

def helpText : String :=
  "Strip semantic actions from a Bison/Yacc grammar, or purify it for diffing\n\n" ++
  usageLine ++
  "\nArguments:\n" ++
  "  <INPUT>   Grammar file to read\n" ++
  "  <OUTPUT>  File to write; created or truncated\n" ++
  "\nOptions:\n" ++
  "  -c                      Empty every action block, keeping its braces and line breaks\n" ++
  "  -p                      Drop action blocks and comments and normalize the rules layout\n" ++
  "      --strict            Fail on unbalanced braces or unterminated comments\n" ++
  "      --marker-top-level  Only honor a \x60%%\x60 marker outside action blocks and quotes\n" ++
  "  -v, --verbose...        Log more; repeat for debug and trace output\n" ++
  "  -q, --quiet             Log errors only\n" ++
  "  -h, --help              Print help\n" ++
  "  -V, --version           Print version\n"

def Refusal.answer (refusal : Refusal) (host : Host m) : m UInt32 := do
  match refusal with
  | .helpAsked => host.print helpText
  | .versionAsked => host.print versionText
  | .nothingGiven => host.report helpText
  | _ => host.report usageLine
  return refusal.exitCode

/-- Carry out a command line, given its words without the program's name. -/
def run (host : Host m) (words : List String) : m UInt32 :=
  match Invocation.ofWords words with
  | .ok invocation => invocation.run host
  | .error refusal => refusal.answer host

end GrammarTidy.Command
