namespace GrammarTidy.Command

/-! The words of a command line, taken apart into switches and operands. The name
of a switch cannot be shortened. -/

inductive Switch where
  | hollow
  | tidy
  | strict
  | topLevelMarker
  | verbose
  | quiet
  | help
  | version
deriving DecidableEq, Repr

namespace Switch

def ofLetter? : Char → Option Switch
  | 'c' => some .hollow
  | 'p' => some .tidy
  | 'v' => some .verbose
  | 'q' => some .quiet
  | 'h' => some .help
  | 'V' => some .version
  | _ => none

def ofName? (name : String) : Option Switch :=
  match name with
  | "strict" => some .strict
  | "marker-top-level" => some .topLevelMarker
  | "verbose" => some .verbose
  | "quiet" => some .quiet
  | "help" => some .help
  | "version" => some .version
  | _ => none

/-- Only verbosity can be asked for more than once. -/
def isRepeatable (switch : Switch) : Bool :=
  switch = .verbose

end Switch

inductive Argument where
  | switch (switch : Switch)
  /-- A switch that came with a value after an equals sign, whatever it is. -/
  | valued (switch : Switch)
  | unknown (text : String)
  | operand (text : String)
deriving DecidableEq, Repr

namespace Argument

def ofLetter (letter : Char) : Argument :=
  match Switch.ofLetter? letter with
  | some known => .switch known
  | none => .unknown (String.ofList ['-', letter])

/-- The item of what comes after two dashes: a name, with or without an equals
sign and a value. -/
def ofLong (chars : List Char) : Argument :=
  let name := String.ofList (chars.takeWhile (· != '='))
  match Switch.ofName? name with
  | some known => if chars.contains '=' then .valued known else .switch known
  | none => .unknown ("--" ++ name)

/-- The items of a word: after a single dash every letter is an item of its own,
and a dash alone is an operand. -/
def ofWord (word : String) : List Argument :=
  match word.toList with
  | '-' :: '-' :: name => [ofLong name]
  | '-' :: letter :: letters => (letter :: letters).map ofLetter
  | _ => [.operand word]

/-- The items of a command line. After a word of two dashes every word is an
operand. -/
def ofWords : List String → List Argument
  | [] => []
  | word :: rest =>
      if word = "--" then rest.map .operand
      else ofWord word ++ ofWords rest

example : ofWords ["-pv", "a", "--", "-c"] =
    [.switch .tidy, .switch .verbose, .operand "a", .operand "-c"] := by decide +kernel

end Argument

end GrammarTidy.Command
