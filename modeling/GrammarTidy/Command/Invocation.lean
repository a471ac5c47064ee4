import GrammarTidy.Command.Argument
import GrammarTidy.Command.Log

namespace GrammarTidy.Command

/-! What a command line asks for. Some mistakes are found at the item where they
are made; the others are found when all items are known. -/

structure Invocation where
  mode : Mode
  settings : Settings
  /-- How often verbosity was asked for, at most 255 times. -/
  verbosity : Nat
  quiet : Bool
  input : String
  output : String
deriving DecidableEq, Repr

def Invocation.level (invocation : Invocation) : Level :=
  if invocation.quiet then .error else Level.ofVerbosity invocation.verbosity

inductive Refusal where
  | helpAsked
  | versionAsked
  | unknownSwitch (text : String)
  | extraOperand (text : String)
  | valueGiven (switch : Switch)
  | repeated (switch : Switch)
  | emptyOperand
  | nothingGiven
  | twoModes
  | quietAndVerbose
  | noMode
  | operandMissing
deriving DecidableEq, Repr

/-- The exit code: a request for help or the version is in order, and the rest are
mistakes. -/
def Refusal.exitCode : Refusal → UInt32
  | .helpAsked => 0
  | .versionAsked => 0
  | _ => 2

structure Given where
  switches : List Switch := []
  operands : List String := []
deriving DecidableEq, Repr

namespace Given

/-- The last operand so far is an empty text, which names no file. -/
def endsEmpty (given : Given) : Bool :=
  given.operands.getLast? = some ""

def takeSwitch (given : Given) : Switch → Except Refusal Given
  | .help => .error .helpAsked
  | .version => .error .versionAsked
  | switch =>
      if given.switches.contains switch && !switch.isRepeatable then
        .error (.repeated switch)
      else
        .ok { given with switches := given.switches ++ [switch] }

/-- Take one more item. An operand is looked at when the next item is one that
can follow it: a switch without a value, or an operand with a place left for it.
An item that can follow nothing is refused for its own sake. -/
def take (given : Given) : Argument → Except Refusal Given
  | .valued switch => .error (.valueGiven switch)
  | .unknown text => .error (.unknownSwitch text)
  | .switch switch =>
      if given.endsEmpty then .error .emptyOperand else given.takeSwitch switch
  | .operand text =>
      if given.operands.length ≥ 2 then .error (.extraOperand text)
      else if given.endsEmpty then .error .emptyOperand
      else .ok { given with operands := given.operands ++ [text] }

def has (given : Given) (switch : Switch) : Bool :=
  given.switches.contains switch

/-- What all items together ask for. The checks come in this order, and the first
that fails decides. -/
def conclude (given : Given) : Except Refusal Invocation :=
  if given.operands.contains "" then .error .emptyOperand
  else if given.switches.isEmpty && given.operands.isEmpty then .error .nothingGiven
  else if given.has .hollow && given.has .tidy then .error .twoModes
  else if given.has .quiet && given.has .verbose then .error .quietAndVerbose
  else if !given.has .hollow && !given.has .tidy then .error .noMode
  else
    match given.operands with
    | [input, output] =>
        .ok
          { mode := if given.has .hollow then .hollow else .tidy
            settings :=
              { strict := given.has .strict
                topLevelMarker := given.has .topLevelMarker }
            verbosity := min 255 (given.switches.count .verbose)
            quiet := given.has .quiet
            input
            output }
    | _ => .error .operandMissing

end Given

/-- What a command line asks for, from its words without the program's name. -/
def Invocation.ofWords (words : List String) : Except Refusal Invocation := do
  let given ← (Argument.ofWords words).foldlM Given.take {}
  given.conclude

end GrammarTidy.Command
