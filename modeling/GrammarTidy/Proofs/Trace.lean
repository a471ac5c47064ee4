import GrammarTidy.Mode

/-! What a scan does, apart from the outlet it does it to. Every scan is the
putting of a fixed list of chunks followed by a fixed verdict, and this module
reads both off the scanner. -/

namespace GrammarTidy

namespace Scanner

variable {m : Type → Type} {Refusal State : Type} [Monad m]

inductive Ending (State : Type) where
  | finished (last : State) (unread : Bytes)
  | rejected (defect : Defect)
deriving DecidableEq, Repr

/-- The chunks that a walk puts, and how it ends. -/
structure Trace (State : Type) where
  chunks : List Bytes := []
  ending : Ending State
deriving DecidableEq, Repr

namespace Trace

def after (trace : Trace State) (chunks : List Bytes) : Trace State :=
  { trace with chunks := chunks ++ trace.chunks }

def output (trace : Trace State) : Bytes := trace.chunks.flatten

@[simp] theorem chunks_after (trace : Trace State) (chunks : List Bytes) :
    (trace.after chunks).chunks = chunks ++ trace.chunks := rfl

@[simp] theorem ending_after (trace : Trace State) (chunks : List Bytes) :
    (trace.after chunks).ending = trace.ending := rfl

@[simp] theorem output_after (trace : Trace State) (chunks : List Bytes) :
    (trace.after chunks).output = chunks.flatten ++ trace.output := by
  simp [output]

@[simp] theorem after_nil (trace : Trace State) : trace.after [] = trace := rfl

theorem after_after (trace : Trace State) (first second : List Bytes) :
    (trace.after second).after first = trace.after (first ++ second) := by
  simp [after]

end Trace

def trace (scanner : Scanner State) : Bytes → State → Trace State
  | [], state => { ending := .finished state [] }
  | byte :: rest, state =>
      match scanner.move state byte rest.head? with
      | .one chunks next => (trace scanner rest next).after chunks
      | .two chunks next =>
          match rest with
          | [] => { chunks, ending := .finished next [] }
          | _ :: later => (trace scanner later next).after chunks
      | .stop chunks last => { chunks, ending := .finished last rest }
      | .reject defect => { ending := .rejected defect }

/-- The result of a scan of a whole text: its last state, or what is wrong. -/
def verdict (scanner : Scanner State) (source : Bytes) : Except Defect State :=
  match (scanner.trace source scanner.initial).ending with
  | .rejected defect => .error defect
  | .finished last _ =>
      match scanner.objection last with
      | some defect => .error defect
      | none => .ok last

theorem verdict_of_finished {scanner : Scanner State} {source unread : Bytes} {last : State}
    (finished : (scanner.trace source scanner.initial).ending = .finished last unread) :
    scanner.verdict source =
      match scanner.objection last with
      | some defect => .error defect
      | none => .ok last := by
  rw [verdict, finished]

theorem verdict_of_rejected {scanner : Scanner State} {source : Bytes} {defect : Defect}
    (rejected : (scanner.trace source scanner.initial).ending = .rejected defect) :
    scanner.verdict source = .error defect := by
  rw [verdict, rejected]

/-- A scanner that has nothing against any text. -/
structure Tolerant (scanner : Scanner State) : Prop where
  moves : ∀ state byte next defect, scanner.move state byte next ≠ .reject defect
  ends : ∀ state, scanner.objection state = none

theorem Tolerant.trace {scanner : Scanner State} (tolerant : scanner.Tolerant) (rest : Bytes)
    (state : State) :
    ∃ last unread, (scanner.trace rest state).ending = .finished last unread := by
  fun_induction scanner.trace rest state with
  | case1 state => exact ⟨state, [], rfl⟩
  | case2 state byte rest chunks next move induction => exact induction
  | case3 state byte chunks next move => exact ⟨next, [], rfl⟩
  | case4 state byte chunks next skipped later move induction => exact induction
  | case5 => exact ⟨_, _, rfl⟩
  | case6 state rest byte defect move => exact absurd move (tolerant.moves _ _ _ _)

theorem Tolerant.verdict {scanner : Scanner State} (tolerant : scanner.Tolerant)
    (source : Bytes) : ∃ last, scanner.verdict source = .ok last := by
  rcases tolerant.trace source scanner.initial with ⟨last, unread, finished⟩
  exact ⟨last, by rw [verdict_of_finished finished, tolerant.ends]⟩

def conclude {α β : Type} (outlet : Outlet m Refusal) (source : Bytes)
    (succeed : α → ExceptT (Failure Refusal) m β) :
    Except Defect α → ExceptT (Failure Refusal) m β
  | .ok value => succeed value
  | .error defect => outlet.reject source defect

@[simp] theorem chunkBytes_append (first second : List Bytes) :
    chunkBytes (first ++ second) = chunkBytes first + chunkBytes second := by
  simp [chunkBytes]

end Scanner

/-! ## Runs against any outlet -/

section Runs

variable {m : Type → Type} {Refusal State : Type} [Monad m] [LawfulMonad m]

theorem Outlet.putAll_append (outlet : Outlet m Refusal) (first second : List Bytes) :
    outlet.putAll (first ++ second) = (do outlet.putAll first; outlet.putAll second) := by
  induction first with
  | nil => simp [Outlet.putAll]
  | cons chunk rest induction => simp [Outlet.putAll, induction]

namespace Scanner

theorem walk_eq (scanner : Scanner State) (outlet : Outlet m Refusal)
    (source rest : Bytes) (state : State) (written : Nat) :
    scanner.walk outlet source rest state written = (do
      outlet.putAll (scanner.trace rest state).chunks
      match (scanner.trace rest state).ending with
      | .rejected defect => outlet.reject source defect
      | .finished last _ =>
          pure (last, written + chunkBytes (scanner.trace rest state).chunks)) := by
  fun_induction scanner.trace rest state generalizing written with
  | case1 state => simp [walk, Outlet.putAll, chunkBytes]
  | case2 state byte rest chunks next move induction =>
      rw [walk, move]
      simp only [induction, Trace.chunks_after, Trace.ending_after, Outlet.putAll_append,
        chunkBytes_append, Nat.add_assoc, bind_assoc]
  | case3 state byte chunks next move =>
      rw [walk, move]
  | case4 state byte chunks next skipped later move induction =>
      rw [walk, move]
      simp only [induction, Trace.chunks_after, Trace.ending_after, Outlet.putAll_append,
        chunkBytes_append, Nat.add_assoc, bind_assoc]
  | case5 state byte rest chunks last move =>
      rw [walk, move]
  | case6 state byte rest defect move =>
      rw [walk, move]
      simp [Outlet.putAll]

/-- A scan puts its chunks and then gives its verdict, whatever the outlet. -/
theorem run_eq (scanner : Scanner State) (outlet : Outlet m Refusal) (source : Bytes) :
    scanner.run outlet source = (do
      let chunks := (scanner.trace source scanner.initial).chunks
      outlet.putAll chunks
      conclude outlet source (fun last => pure (last, chunkBytes chunks))
        (scanner.verdict source)) := by
  rw [run, walk_eq]
  simp only [bind_assoc, Nat.zero_add]
  congr 1
  funext _
  unfold verdict
  cases (scanner.trace source scanner.initial).ending with
  | rejected defect => simp [conclude, Outlet.reject]
  | finished last unread =>
      cases objection : scanner.objection last <;> simp [conclude, objection]

theorem summarize_eq {β : Type} (scanner : Scanner State) (outlet : Outlet m Refusal)
    (source : Bytes) (value : Nat → State → β) (event : β → Event) :
    scanner.summarize outlet source value event = (do
      outlet.putAll (scanner.trace source scanner.initial).chunks
      conclude outlet source (fun last => do
        let found := value (scanner.trace source scanner.initial).output.length last
        outlet.note (event found)
        return found) (scanner.verdict source)) := by
  rw [summarize, run_eq]
  simp only [bind_assoc]
  congr 1
  funext _
  cases scanner.verdict source <;> simp [conclude, Outlet.reject, chunkBytes, Trace.output]

end Scanner

end Runs

end GrammarTidy
