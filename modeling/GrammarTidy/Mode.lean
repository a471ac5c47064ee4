import GrammarTidy.Pass.Declarations
import GrammarTidy.Pass.Hollow
import GrammarTidy.Pass.Rules

namespace GrammarTidy

/-! The two jobs that can be done on a grammar file: hollow its action blocks and
keep the rest, or tidy it, which drops the blocks and lays out the rules. -/

section Tidy

variable {m : Type → Type} {Refusal : Type} [Monad m]

/-- Tidy a whole grammar file into an outlet: first its declarations, then its
rules section, if it has one. The rules section is scanned on its own, with the
depth counted from zero, but a fault in it is placed in the whole file. -/
@[specialize] def Tidy.run (outlet : Outlet m Refusal) (settings : Settings) (source : Bytes) :
    ExceptT (Failure Refusal) m Tally := do
  let (rulesStart, declarations) ← Declarations.run outlet settings source
  match rulesStart with
  | none => return declarations
  | some start =>
      let rules ← (Rules.run outlet settings (source.drop start)).adapt
        (Failure.rebase source start)
      return declarations.followedBy rules

end Tidy

inductive Mode where
  | hollow
  | tidy
deriving DecidableEq, Repr

namespace Mode

/-- The flag of a mode on a command line. -/
def flag : Mode → String
  | .hollow => "-c"
  | .tidy => "-p"

def ofFlag? (flag : String) : Option Mode :=
  if flag = Mode.hollow.flag then some .hollow
  else if flag = Mode.tidy.flag then some .tidy
  else none

@[simp] theorem ofFlag?_flag (mode : Mode) : ofFlag? mode.flag = some mode := by
  cases mode <;> rfl

variable {m : Type → Type} {Refusal : Type} [Monad m]

@[specialize] def run (mode : Mode) (outlet : Outlet m Refusal) (settings : Settings)
    (source : Bytes) : ExceptT (Failure Refusal) m Tally :=
  match mode with
  | .hollow => Hollow.run outlet settings source
  | .tidy => Tidy.run outlet settings source

/-- Do the job of a mode on `source` in memory. Only strict settings can make it
fail. -/
def apply (mode : Mode) (settings : Settings) (source : Bytes) : Except Fault Bytes :=
  match (mode.run Outlet.memory settings source).run.run #[] with
  | (.ok _, held) => .ok held.toList
  | (.error failure, _) => .error failure.fault

end Mode

end GrammarTidy
