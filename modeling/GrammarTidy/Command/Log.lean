import GrammarTidy.Command.Host
import GrammarTidy.Mode

namespace GrammarTidy.Command

/-! What a run tells about itself, and in which words. -/

/-! ## Levels

Levels go from the gravest to the least. An entry is shown when it is at least as
grave as the limit. -/

inductive Level where
  | error
  | warn
  | info
  | debug
  | trace
deriving DecidableEq, Repr

namespace Level

def rank : Level → Nat
  | .error => 0
  | .warn => 1
  | .info => 2
  | .debug => 3
  | .trace => 4

def isShown (limit level : Level) : Bool :=
  level.rank ≤ limit.rank

def label : Level → String
  | .error => "ERROR"
  | .warn => "WARN"
  | .info => "INFO"
  | .debug => "DEBUG"
  | .trace => "TRACE"

/-- The limit for a number of requests for verbosity. -/
def ofVerbosity : Nat → Level
  | 0 => .warn
  | 1 => .info
  | 2 => .debug
  | _ => .trace

end Level

/-! ## Troubles

A run fails when its input cannot be loaded, and no output was touched then, or
when the output goes wrong. Its trouble is told from the effect to the causes. -/

inductive OutputTrouble where
  | cannotCreate (path : String) (cause : SystemError)
  | cannotWrite (path : String) (cause : SystemError)
  | faulty (fault : Fault)
deriving DecidableEq, Repr

inductive Trouble where
  | loading (path : String) (error : LoadError)
  | processing (input : String) (trouble : OutputTrouble)
deriving DecidableEq, Repr

def OutputTrouble.chain : OutputTrouble → List String
  | .cannotCreate path cause => [s!"cannot create {path}", cause.text]
  | .cannotWrite path cause => [s!"cannot write {path}", cause.text]
  | .faulty fault => [fault.message]

namespace Trouble

def effect : Trouble → String
  | .loading path (.cannotOpen _) => s!"cannot open {path}"
  | .loading path (.cannotRead _) => s!"cannot read {path}"
  | .processing input _ => s!"while processing {input}"

def causes : Trouble → List String
  | .loading _ (.cannotOpen cause) => [cause.text]
  | .loading _ (.cannotRead cause) => [cause.text]
  | .processing _ trouble => trouble.chain

def text (trouble : Trouble) : String :=
  ": ".intercalate (trouble.effect :: trouble.causes)

/-- A cause with something in front of it. If it has more than one line, the
later ones are set in as far as the first. -/
def setIn (front cause : String) : List String :=
  match cut '\n' cause with
  | [] => []
  | first :: later =>
      let margin := String.ofList (List.replicate front.length ' ')
      (front ++ first) :: later.map (margin ++ ·)

/-- The causes on lines of their own, numbered if there is more than one. -/
def causeLines (trouble : Trouble) : List String :=
  match trouble.causes with
  | [cause] => setIn "    " cause
  | causes => causes.zipIdx.flatMap fun (cause, index) => setIn s!"    {index}: " cause

def lines (trouble : Trouble) : List String :=
  trouble.effect :: "" :: "Caused by:" :: trouble.causeLines

end Trouble

/-! ## Entries -/

inductive Entry where
  | sizeChanged (path : String) (announced read : Nat)
  | loaded (mode : Mode) (input : String) (bytes : Nat)
  | scan (event : Event)
  | finished (tally : Tally)
  | unbalanced (depth : Int)
  | failed (trouble : Trouble)
deriving DecidableEq, Repr

def describeOptional : Option Nat → String
  | none => "None"
  | some number => s!"Some({number})"

def describeTally (tally : Tally) : String :=
  s!"ScanSummary \x7b bytes_in: {tally.bytesIn}, bytes_out: {tally.bytesOut}, " ++
    s!"max_depth: {tally.maxDepth}, final_depth: {tally.finalDepth}, " ++
    s!"rules_offset: {describeOptional tally.rulesOffset} \x7d"

def describeSection : Option Nat → String
  | none => "End"
  | some start => s!"Rules \x7b start: {start} \x7d"

def describeEvent : Event → String
  | .declarationsScanned rulesStart tally =>
      s!"scanned declarations section={describeSection rulesStart} " ++
        s!"summary={describeTally tally}"
  | .rulesLaidOut tally => s!"reformatted rules section summary={describeTally tally}"
  | .blocksHollowed tally => s!"stripped semantic blocks summary={describeTally tally}"
  | .rejected defect =>
      s!"rejecting malformed input kind={defect.kind.text} offset={defect.offset}"

namespace Entry

def level : Entry → Level
  | .sizeChanged .. => .warn
  | .loaded .. => .info
  | .scan _ => .debug
  | .finished _ => .debug
  | .unbalanced _ => .warn
  | .failed _ => .debug

def text : Entry → List String
  | .sizeChanged path announced read =>
      [s!"file size changed while reading path={path} reported={announced} read={read}"]
  | .loaded mode input bytes =>
      [s!"loaded grammar mode=\x22{mode.flag}\x22 input={input} bytes={bytes}"]
  | .scan event => [describeEvent event]
  | .finished tally => [s!"scan finished summary={describeTally tally}"]
  | .unbalanced depth =>
      [s!"braces did not balance; output may be truncated depth={depth}"]
  | .failed trouble =>
      match trouble.lines with
      | [] => []
      | first :: rest => s!"run failed error={first}" :: rest

/-- The lines of an entry in the log, with its level in front of the first. -/
def lines (entry : Entry) : List String :=
  match entry.text with
  | [] => []
  | first :: rest => s!"{entry.level.label} {first}" :: rest

end Entry

namespace Host

variable {m : Type → Type} [Monad m]

def log (host : Host m) (limit : Level) (entry : Entry) : m Unit :=
  if limit.isShown entry.level then entry.lines.forM host.report else pure ()

/-- A file to write as an outlet, with its events told in the log. -/
def outlet (host : Host m) (limit : Level) (write : Bytes → ExceptT SystemError m Unit) :
    Outlet m SystemError where
  put := write
  note event := host.log limit (.scan event)

end Host

end GrammarTidy.Command
