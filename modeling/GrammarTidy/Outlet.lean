import GrammarTidy.Cursor

namespace GrammarTidy

/-! Where a scan's output goes. A scan hands its output over in chunks, in
order, and stops at the first chunk that is refused. Its outlet is also told what
the scan finds out. -/

inductive Event where
  | declarationsScanned (rulesStart : Option Nat) (tally : Tally)
  | rulesLaidOut (tally : Tally)
  | blocksHollowed (tally : Tally)
  /-- The offset of the defect counts from the start of the text scanned. -/
  | rejected (defect : Defect)
deriving DecidableEq, Repr

/-! A scan fails when its outlet refuses a chunk, or when it is strict and finds a
fault. -/

inductive Failure (Refusal : Type) where
  | refused (cause : Refusal)
  | faulty (fault : Fault)
deriving DecidableEq, Repr

namespace Failure

def message {Refusal : Type} (describe : Refusal → String) : Failure Refusal → String
  | .refused cause => s!"sink error: {describe cause}"
  | .faulty fault => fault.message

/-- The same failure, of a scan of the text that starts at `base` of `whole`. -/
def rebase {Refusal : Type} (whole : Bytes) (base : Nat) : Failure Refusal → Failure Refusal
  | .refused cause => .refused cause
  | .faulty fault => .faulty (fault.rebase whole base)

def fault : Failure Empty → Fault
  | .faulty fault => fault
  | .refused never => nomatch never

end Failure

structure Outlet (m : Type → Type) (Refusal : Type) where
  put : Bytes → ExceptT Refusal m Unit
  note : Event → m Unit

namespace Outlet

section Monadic

variable {m : Type → Type} {Refusal : Type} [Monad m]

/-- Put chunks one after the other, until one is refused. -/
def putAll (outlet : Outlet m Refusal) : List Bytes → ExceptT (Failure Refusal) m Unit
  | [] => pure ()
  | chunk :: rest => do
      (outlet.put chunk).adapt .refused
      outlet.putAll rest

def reject {α : Type} (outlet : Outlet m Refusal) (source : Bytes) (defect : Defect) :
    ExceptT (Failure Refusal) m α := do
  outlet.note (.rejected defect)
  throw (.faulty (defect.locate source))

end Monadic

/-! ## Outlets in memory

Two outlets refuse nothing: one joins the chunks in memory, the other keeps them
apart. -/

def memory : Outlet (StateM (Array UInt8)) Empty where
  put chunk := modify (fun held : Array UInt8 => held ++ chunk)
  note _ := pure ()

def chunks : Outlet (StateM (Array Bytes)) Empty where
  put chunk := modify (fun held : Array Bytes => held.push chunk)
  note _ := pure ()

end Outlet

theorem append_append_list {α : Type} (held : Array α) (first second : List α) :
    held ++ first ++ second = held ++ (first ++ second) := by
  apply Array.ext'
  simp

theorem size_append (held : Array UInt8) (chunk : Bytes) :
    (held ++ chunk).size = held.size + chunk.length := by
  rw [← Array.length_toList, Array.toList_appendList, List.length_append, Array.length_toList]

end GrammarTidy
