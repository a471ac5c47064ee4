import GrammarTidy.Outlet

namespace GrammarTidy

/-! A scan walks its text once, from the front, with one byte of lookahead.
What it does at a byte is decided by a pure function; this module turns such a
function into a run against any outlet. -/

/-- The choices that a scan leaves to its caller. -/
structure Settings where
  /-- Stop at the first fault in the structure of the file, instead of making
  the best of it. -/
  strict : Bool := false
  /-- Take a percent sign as part of the rules marker only outside all blocks
  and unquoted. -/
  topLevelMarker : Bool := false
deriving DecidableEq, Repr

/-! At a byte a scanner puts some chunks and moves past one byte or two, or puts
some chunks and reads no further, or fails and puts nothing. -/

inductive Move (State : Type) where
  | one (chunks : List Bytes) (next : State)
  | two (chunks : List Bytes) (next : State)
  | stop (chunks : List Bytes) (last : State)
  | reject (defect : Defect)
deriving DecidableEq, Repr

/-- A scan as a machine: where it starts, what it does at a byte that is
followed by another byte or by the end, and what it has against ending in a
state. -/
structure Scanner (State : Type) where
  initial : State
  move : State → UInt8 → Option UInt8 → Move State
  objection : State → Option Defect

namespace Scanner

variable {m : Type → Type} {Refusal State : Type} [Monad m]

def chunkBytes (chunks : List Bytes) : Nat :=
  chunks.flatten.length

/-- Walk over what is left of `source`. The result is the state at the end and
the number of bytes put, `written` of them before. -/
@[specialize] def walk (scanner : Scanner State) (outlet : Outlet m Refusal) (source : Bytes) :
    Bytes → State → Nat → ExceptT (Failure Refusal) m (State × Nat)
  | [], state, written => pure (state, written)
  | byte :: rest, state, written =>
      match scanner.move state byte rest.head? with
      | .one chunks next => do
          outlet.putAll chunks
          walk scanner outlet source rest next (written + chunkBytes chunks)
      | .two chunks next => do
          outlet.putAll chunks
          match rest with
          | [] => pure (next, written + chunkBytes chunks)
          | _ :: later => walk scanner outlet source later next (written + chunkBytes chunks)
      | .stop chunks last => do
          outlet.putAll chunks
          pure (last, written + chunkBytes chunks)
      | .reject defect => outlet.reject source defect

@[specialize] def run (scanner : Scanner State) (outlet : Outlet m Refusal) (source : Bytes) :
    ExceptT (Failure Refusal) m (State × Nat) := do
  let (state, written) ← scanner.walk outlet source source scanner.initial 0
  match scanner.objection state with
  | some defect => outlet.reject source defect
  | none => pure (state, written)

/-- Run over the whole of `source` and tell what came of it: `value` is read off
the number of bytes put and the state at the end. -/
@[specialize] def summarize {β : Type} (scanner : Scanner State) (outlet : Outlet m Refusal)
    (source : Bytes) (value : Nat → State → β) (event : β → Event) :
    ExceptT (Failure Refusal) m β := do
  let (last, written) ← scanner.run outlet source
  let found := value written last
  outlet.note (event found)
  return found

end Scanner

end GrammarTidy
