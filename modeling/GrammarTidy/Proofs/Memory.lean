import GrammarTidy.Proofs.Trace

/-! What the passes give to an outlet that refuses nothing, and in particular
what they leave in memory. -/

namespace GrammarTidy

variable {σ ε δ α β : Type} {Refusal : Type}

/-! ## Runs that keep a state -/

theorem run_bind_of_ok {first : ExceptT ε (StateM σ) α} {held middle : σ} {value : α}
    (ok : first.run.run held = (.ok value, middle)) (next : α → ExceptT ε (StateM σ) β) :
    (first >>= next).run.run held = (next value).run.run middle := by
  rw [ExceptT.run_bind, StateT.run_bind, ok]
  rfl

theorem run_bind_of_error {first : ExceptT ε (StateM σ) α} {held middle : σ} {cause : ε}
    (error : first.run.run held = (.error cause, middle))
    (next : α → ExceptT ε (StateM σ) β) :
    (first >>= next).run.run held = (.error cause, middle) := by
  rw [ExceptT.run_bind, StateT.run_bind, error]
  rfl

theorem run_adapt (scan : ExceptT ε (StateM σ) α) (change : ε → δ) (held : σ) :
    (scan.adapt change).run.run held =
      ((scan.run.run held).1.mapError change, (scan.run.run held).2) := rfl

namespace Outlet

/-- The result of a scan into an empty memory, and the bytes it left there. -/
def inMemory (scan : Outlet (StateM (Array UInt8)) Empty →
      ExceptT (Failure Empty) (StateM (Array UInt8)) α) : Except Fault α × Bytes :=
  let (result, held) := (scan memory).run.run #[]
  (result.mapError Failure.fault, held.toList)

/-- An outlet that refuses no chunk, whatever it holds. -/
def Accepts (outlet : Outlet (StateM σ) Refusal) : Prop :=
  ∀ chunk held, ((outlet.put chunk).run.run held).1 = .ok ()

theorem memory_accepts : memory.Accepts := fun _ _ => rfl

theorem Accepts.putAll {outlet : Outlet (StateM σ) Refusal} (accepts : outlet.Accepts)
    (chunks : List Bytes) (held : σ) :
    ∃ later, (outlet.putAll chunks).run.run held = (.ok (), later) := by
  induction chunks generalizing held with
  | nil => exact ⟨held, rfl⟩
  | cons chunk rest induction =>
      have first : ((outlet.put chunk).adapt Failure.refused).run.run held =
          (.ok (), ((outlet.put chunk).run.run held).2) := by
        rw [run_adapt, accepts chunk held]
        rfl
      rcases induction ((outlet.put chunk).run.run held).2 with ⟨later, finish⟩
      refine ⟨later, ?_⟩
      rw [Outlet.putAll, run_bind_of_ok first, finish]

theorem putAll_memory (chunks : List Bytes) (held : Array UInt8) :
    (memory.putAll chunks).run.run held = (.ok (), held ++ chunks.flatten) := by
  induction chunks generalizing held with
  | nil =>
      rw [List.flatten_nil, Array.appendList_nil]
      rfl
  | cons chunk rest induction =>
      have first : ((memory.put chunk).adapt Failure.refused).run.run held =
          (.ok (), held ++ chunk) := rfl
      rw [putAll, run_bind_of_ok first, induction, List.flatten_cons, append_append_list]

theorem inMemory_of_run {scan : Outlet (StateM (Array UInt8)) Empty →
      ExceptT (Failure Empty) (StateM (Array UInt8)) α} {result : Except Fault α}
    {output : Bytes}
    (ran : (scan memory).run.run #[] =
      (result.mapError .faulty, (#[] : Array UInt8) ++ output)) :
    inMemory scan = (result, output) := by
  have left : ((#[] : Array UInt8) ++ output).toList = output := by
    rw [Array.toList_appendList]
    rfl
  rw [inMemory, ran]
  cases result with
  | ok value => exact congrArg (Prod.mk (Except.ok value)) left
  | error fault => exact congrArg (Prod.mk (Except.error fault)) left

end Outlet

/-! ## The results of the scans -/

namespace Scanner

variable {State : Type}

/-- What a scan of `source` comes to, with its defect placed in `source`. -/
def result (scanner : Scanner State) (source : Bytes) (value : State → β) : Except Fault β :=
  match scanner.verdict source with
  | .ok last => .ok (value last)
  | .error defect => .error (defect.locate source)

def outcome (scanner : Scanner State) (source : Bytes) (value : Nat → State → α) :
    Except Fault α × Bytes :=
  let output := (scanner.trace source scanner.initial).output
  (scanner.result source (value output.length), output)

variable {outlet : Outlet (StateM σ) Refusal} (scanner : Scanner State) (source : Bytes)
  (value : Nat → State → α) (event : α → Event)

/-- A scan whose chunks are all accepted tells one more event and ends with its
result. -/
theorem summarize_of_putAll {held middle : σ}
    (put : (outlet.putAll (scanner.trace source scanner.initial).chunks).run.run held =
      (.ok (), middle)) :
    ∃ told, (scanner.summarize outlet source value event).run.run held =
      ((scanner.outcome source value).1.mapError .faulty, ((outlet.note told).run middle).2) := by
  rw [summarize_eq, run_bind_of_ok put, outcome, result]
  cases scanner.verdict source with
  | ok last => exact ⟨event (value _ last), rfl⟩
  | error defect => exact ⟨.rejected defect, rfl⟩

theorem summarize_of_accepts (accepts : outlet.Accepts) (held : σ) :
    ∃ later, (scanner.summarize outlet source value event).run.run held =
      ((scanner.outcome source value).1.mapError .faulty, later) := by
  rcases accepts.putAll (scanner.trace source scanner.initial).chunks held with ⟨_, put⟩
  rcases scanner.summarize_of_putAll source value event put with ⟨_, ran⟩
  exact ⟨_, ran⟩

theorem summarize_memory (held : Array UInt8) :
    (scanner.summarize Outlet.memory source value event).run.run held =
      ((scanner.outcome source value).1.mapError .faulty,
        held ++ (scanner.outcome source value).2) := by
  rcases scanner.summarize_of_putAll source value event (Outlet.putAll_memory _ held) with
    ⟨_, ran⟩
  exact ran

theorem inMemory_summarize :
    Outlet.inMemory (scanner.summarize · source value event) = scanner.outcome source value :=
  Outlet.inMemory_of_run (scanner.summarize_memory source value event #[])

end Scanner

/-! ## The results of the passes -/

section Passes

variable {outlet : Outlet (StateM σ) Refusal} (settings : Settings) (source : Bytes)

namespace Rules

def output : Bytes := ((scanner settings).trace source {}).output

def result : Except Fault Tally :=
  (scanner settings).result source fun position =>
    position.cursor.tally source (output settings source).length

theorem run_memory (held : Array UInt8) :
    (Rules.run Outlet.memory settings source).run.run held =
      ((result settings source).mapError .faulty, held ++ output settings source) :=
  (scanner settings).summarize_memory source _ _ held

theorem inMemory_run :
    Outlet.inMemory (Rules.run · settings source) =
      (result settings source, output settings source) :=
  (scanner settings).inMemory_summarize source _ _

end Rules

namespace Declarations

def output : Bytes := ((scanner settings).trace source {}).output

def result : Except Fault (Option Nat × Tally) :=
  (scanner settings).result source fun position =>
    (position.rulesStart, position.tally source (output settings source).length)

theorem run_memory (held : Array UInt8) :
    (Declarations.run Outlet.memory settings source).run.run held =
      ((result settings source).mapError .faulty, held ++ output settings source) :=
  (scanner settings).summarize_memory source _ _ held

theorem inMemory_run :
    Outlet.inMemory (Declarations.run · settings source) =
      (result settings source, output settings source) :=
  (scanner settings).inMemory_summarize source _ _

end Declarations

namespace Hollow

def output : Bytes := ((scanner settings).trace source {}).output

def result : Except Fault Tally :=
  (scanner settings).result source fun cursor =>
    cursor.tally source (output settings source).length

theorem run_memory (held : Array UInt8) :
    (Hollow.run Outlet.memory settings source).run.run held =
      ((result settings source).mapError .faulty, held ++ output settings source) :=
  (scanner settings).summarize_memory source _ _ held

theorem inMemory_run :
    Outlet.inMemory (Hollow.run · settings source) =
      (result settings source, output settings source) :=
  (scanner settings).inMemory_summarize source _ _

end Hollow

namespace Tidy

/-- The rules section follows the declarations that were scanned without a
fault, if they end with a marker. -/
def output : Bytes :=
  Declarations.output settings source ++
    match Declarations.result settings source with
    | .ok (some start, _) => Rules.output settings (source.drop start)
    | _ => []

def result : Except Fault Tally :=
  match Declarations.result settings source with
  | .error fault => .error fault
  | .ok (none, declarations) => .ok declarations
  | .ok (some start, declarations) =>
      match Rules.result settings (source.drop start) with
      | .error fault => .error (fault.rebase source start)
      | .ok rules => .ok (declarations.followedBy rules)

theorem run_of_passes {held middle : σ} {later : Nat → σ}
    (declared : (Declarations.run outlet settings source).run.run held =
      ((Declarations.result settings source).mapError .faulty, middle))
    (ruled : ∀ start, (Rules.run outlet settings (source.drop start)).run.run middle =
      ((Rules.result settings (source.drop start)).mapError .faulty, later start)) :
    (Tidy.run outlet settings source).run.run held =
      ((result settings source).mapError .faulty,
        match Declarations.result settings source with
        | .ok (some start, _) => later start
        | _ => middle) := by
  unfold result Tidy.run
  rcases outcome : Declarations.result settings source with fault | ⟨_ | start, declarations⟩
  · rw [outcome] at declared
    exact run_bind_of_error declared _
  · rw [outcome] at declared
    exact run_bind_of_ok declared _
  · rw [outcome] at declared
    rw [run_bind_of_ok declared]
    have adapted : ((Rules.run outlet settings (source.drop start)).adapt
        (Failure.rebase source start)).run.run middle =
        (((Rules.result settings (source.drop start)).mapError .faulty).mapError
          (Failure.rebase source start), later start) := by
      rw [run_adapt, ruled start]
    dsimp only
    cases rules : Rules.result settings (source.drop start) with
    | error fault =>
        rw [rules] at adapted
        exact run_bind_of_error adapted _
    | ok tally =>
        rw [rules] at adapted
        exact run_bind_of_ok adapted _

theorem run_of_accepts (accepts : outlet.Accepts) (held : σ) :
    ((Tidy.run outlet settings source).run.run held).1 =
      (result settings source).mapError .faulty := by
  have declared : ∃ middle, (Declarations.run outlet settings source).run.run held =
      ((Declarations.result settings source).mapError .faulty, middle) :=
    (Declarations.scanner settings).summarize_of_accepts source _ _ accepts held
  have ruled (start : Nat) (middle : σ) :
      ∃ later, (Rules.run outlet settings (source.drop start)).run.run middle =
        ((Rules.result settings (source.drop start)).mapError .faulty, later) :=
    (Rules.scanner settings).summarize_of_accepts (source.drop start) _ _ accepts middle
  rcases declared with ⟨middle, declared⟩
  rw [run_of_passes settings source declared fun start => (ruled start middle).choose_spec]

theorem run_memory (held : Array UInt8) :
    (Tidy.run Outlet.memory settings source).run.run held =
      ((result settings source).mapError .faulty, held ++ output settings source) := by
  rw [run_of_passes settings source (Declarations.run_memory settings source held)
    fun start => Rules.run_memory settings (source.drop start) _, output]
  apply congrArg (Prod.mk _)
  rcases Declarations.result settings source with fault | ⟨_ | start, tally⟩
  · rw [List.append_nil]
  · rw [List.append_nil]
  · exact append_append_list held _ _

end Tidy

end Passes

/-! ## The passes in memory -/

section InMemory

variable (settings : Settings) (source : Bytes)

theorem Tidy.inMemory_run :
    Outlet.inMemory (Tidy.run · settings source) =
      (Tidy.result settings source, Tidy.output settings source) :=
  Outlet.inMemory_of_run (Tidy.run_memory settings source #[])

theorem Mode.apply_of_inMemory {mode : Mode} {tally : Tally} {output : Bytes}
    (ran : Outlet.inMemory (mode.run · settings source) = (.ok tally, output)) :
    mode.apply settings source = .ok output := by
  unfold Outlet.inMemory at ran
  unfold Mode.apply
  rcases outcome : (mode.run Outlet.memory settings source).run.run #[] with
    ⟨failure | value, held⟩
  · rw [outcome] at ran
    cases ran
  · rw [outcome] at ran
    cases ran
    rfl

end InMemory

/-! ## Lenient passes -/

section Lenient

variable {settings : Settings}

theorem Rules.tolerant (lenient : settings.strict = false) :
    (Rules.scanner settings).Tolerant where
  moves position byte next defect := by
    simp only [scanner, lenient, Bool.false_and, Bool.false_eq_true, if_false]
    intro rejects
    split at rejects <;> split at rejects <;> cases rejects
  ends position := by simp [scanner, lenient]

theorem Rules.result_of_lenient (lenient : settings.strict = false) (source : Bytes) :
    ∃ tally, Rules.result settings source = .ok tally := by
  rcases (Rules.tolerant lenient).verdict source with ⟨last, ok⟩
  rw [Rules.result, Scanner.result, ok]
  exact ⟨_, rfl⟩

theorem Declarations.tolerant (lenient : settings.strict = false) :
    (Declarations.scanner settings).Tolerant where
  moves position byte next defect := by
    simp only [scanner, lenient, Bool.false_and, Bool.false_eq_true, if_false]
    intro rejects
    split at rejects <;> cases rejects
  ends position := by simp [scanner, lenient]

theorem Hollow.tolerant (lenient : settings.strict = false) :
    (Hollow.scanner settings).Tolerant where
  moves cursor byte next defect := by simp [scanner, lenient]
  ends cursor := by simp [scanner, lenient]

theorem Mode.hollow_apply (lenient : settings.strict = false) (source : Bytes) :
    Mode.hollow.apply settings source = .ok (Hollow.output settings source) := by
  have ran := Hollow.inMemory_run settings source
  rcases (Hollow.tolerant lenient).verdict source with ⟨last, ok⟩
  rw [Hollow.result, Scanner.result, ok] at ran
  exact Mode.apply_of_inMemory settings source ran

theorem Tidy.result_of_lenient (lenient : settings.strict = false) (source : Bytes) :
    ∃ tally, Tidy.result settings source = .ok tally := by
  rcases (Declarations.tolerant lenient).verdict source with ⟨last, ok⟩
  rw [Tidy.result, Declarations.result, Scanner.result, ok]
  dsimp only
  cases last.rulesStart with
  | none => exact ⟨_, rfl⟩
  | some start =>
      rcases Rules.result_of_lenient lenient (source.drop start) with ⟨tally, ruled⟩
      dsimp only
      rw [ruled]
      exact ⟨_, rfl⟩

theorem Mode.tidy_apply (lenient : settings.strict = false) (source : Bytes) :
    Mode.tidy.apply settings source = .ok (Tidy.output settings source) := by
  have ran := Tidy.inMemory_run settings source
  rcases Tidy.result_of_lenient lenient source with ⟨tally, ok⟩
  rw [ok] at ran
  exact Mode.apply_of_inMemory settings source ran

end Lenient

end GrammarTidy
