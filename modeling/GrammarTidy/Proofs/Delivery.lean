import GrammarTidy.Outlet.Bounded
import GrammarTidy.Proofs.Memory

/-! What a pass does is settled before it meets its outlet: a list of acts and a
result. The outlet only decides how far the acts get. -/

namespace GrammarTidy

/-- The passes over a text, and the jobs that are made of them. -/
inductive Pass where
  | hollow
  | declarations
  | rules
  | tidy
  | job (mode : Mode)
deriving DecidableEq, Repr

def Pass.Result : Pass → Type
  | .declarations => Option Nat × Tally
  | _ => Tally

variable {m : Type → Type} {Refusal α β State : Type}

def Pass.run [Monad m] (pass : Pass) (outlet : Outlet m Refusal) (settings : Settings)
    (source : Bytes) : ExceptT (Failure Refusal) m pass.Result :=
  match pass with
  | .hollow => Hollow.run outlet settings source
  | .declarations => Declarations.run outlet settings source
  | .rules => Rules.run outlet settings source
  | .tidy => Tidy.run outlet settings source
  | .job mode => mode.run outlet settings source

/-! ## Scripts -/

inductive Act where
  | put (chunk : Bytes)
  | note (event : Event)
deriving DecidableEq, Repr

/-- A pass apart from its outlet: what it does, and what it comes to if all of
that can be done. -/
structure Script (α : Type) where
  acts : List Act
  result : Except Fault α

def Act.chunks (acts : List Act) : List Bytes :=
  acts.filterMap fun
    | .put chunk => some chunk
    | .note _ => none

def Script.chunks (script : Script α) : List Bytes := Act.chunks script.acts

def Script.bind (first : Script α) (next : α → Script β) : Script β :=
  match first.result with
  | .error fault => { acts := first.acts, result := .error fault }
  | .ok value => { acts := first.acts ++ (next value).acts, result := (next value).result }

def Script.rebase (script : Script α) (whole : Bytes) (base : Nat) : Script α :=
  { script with result := script.result.mapError (·.rebase whole base) }

/-- A scan puts its chunks and then tells how it ended. -/
def Scanner.script (scanner : Scanner State) (source : Bytes) (value : Nat → State → β)
    (event : β → Event) : Script β where
  acts := (scanner.trace source scanner.initial).chunks.map .put ++
    match scanner.verdict source with
    | .ok last => [.note (event (value (scanner.trace source scanner.initial).output.length last))]
    | .error defect => [.note (.rejected defect)]
  result := (scanner.outcome source value).1

section Play

variable [Monad m]

def Outlet.perform (outlet : Outlet m Refusal) : List Act → ExceptT (Failure Refusal) m Unit
  | [] => pure ()
  | .put chunk :: rest => do
      (outlet.put chunk).adapt .refused
      outlet.perform rest
  | .note event :: rest => do
      outlet.note event
      outlet.perform rest

def Script.play (script : Script α) (outlet : Outlet m Refusal) :
    ExceptT (Failure Refusal) m α := do
  outlet.perform script.acts
  match script.result with
  | .ok value => pure value
  | .error fault => throw (.faulty fault)

variable [LawfulMonad m] (outlet : Outlet m Refusal)

theorem Outlet.perform_append (first second : List Act) :
    outlet.perform (first ++ second) = (do outlet.perform first; outlet.perform second) := by
  induction first with
  | nil => simp [perform]
  | cons act rest induction => cases act <;> simp [perform, induction]

omit [LawfulMonad m] in
private theorem Outlet.perform_map_put (chunks : List Bytes) :
    outlet.perform (chunks.map .put) = outlet.putAll chunks := by
  induction chunks with
  | nil => rfl
  | cons chunk rest induction => rw [List.map_cons, perform, putAll, induction]

theorem Script.play_bind (first : Script α) (next : α → Script β) :
    (first.bind next).play outlet = first.play outlet >>= fun value => (next value).play outlet := by
  unfold bind play
  cases first.result with
  | error fault => simp
  | ok value => simp [Outlet.perform_append]

theorem Scanner.summarize_eq_play (scanner : Scanner State) (source : Bytes)
    (value : Nat → State → β) (event : β → Event) :
    scanner.summarize outlet source value event =
      (scanner.script source value event).play outlet := by
  rw [summarize_eq]
  unfold script Script.play outcome result
  cases scanner.verdict source with
  | ok last =>
    simp [Outlet.perform_append, Outlet.perform_map_put, Outlet.perform, conclude]
  | error defect =>
    simp [Outlet.perform_append, Outlet.perform_map_put, Outlet.perform, conclude, Outlet.reject]

private theorem adapt_bind {ε δ : Type} (first : ExceptT ε m α) (next : α → ExceptT ε m β)
    (change : ε → δ) :
    (first >>= next).adapt change =
      (first.adapt change >>= fun value => (next value).adapt change) := by
  have run : ∀ {γ : Type} (scan : ExceptT ε m γ),
      (scan.adapt change).run = Except.mapError change <$> scan.run := fun _ => rfl
  apply ExceptT.ext
  rw [run, ExceptT.run_bind, ExceptT.run_bind, run, map_bind, bind_map_left]
  congr 1
  funext outcome
  cases outcome with
  | ok value => rfl
  | error cause => exact map_pure _ _

private theorem adapt_pure {ε δ : Type} (value : α) (change : ε → δ) :
    (pure value : ExceptT ε m α).adapt change = pure value :=
  map_pure (Except.mapError change) (.ok value)

private theorem adapt_throw {ε δ : Type} (cause : ε) (change : ε → δ) :
    (throw cause : ExceptT ε m α).adapt change = throw (change cause) :=
  map_pure (Except.mapError change) (.error cause)

private theorem adapt_lift {ε δ : Type} (scan : m α) (change : ε → δ) :
    (liftM scan : ExceptT ε m α).adapt change = liftM scan := by
  apply ExceptT.ext
  change Except.mapError change <$> (Except.ok <$> scan) = Except.ok <$> scan
  rw [← comp_map]
  rfl

private theorem Outlet.adapt_perform (acts : List Act) (whole : Bytes) (base : Nat) :
    (outlet.perform acts).adapt (Failure.rebase whole base) = outlet.perform acts := by
  induction acts with
  | nil => exact adapt_pure _ _
  | cons act rest induction =>
      cases act with
      | put chunk =>
          have same : ((outlet.put chunk).adapt Failure.refused).adapt
              (Failure.rebase whole base) = (outlet.put chunk).adapt Failure.refused := by
            apply ExceptT.ext
            change Except.mapError (Failure.rebase whole base) <$>
              (Except.mapError Failure.refused <$> (outlet.put chunk).run) =
                Except.mapError Failure.refused <$> (outlet.put chunk).run
            rw [← comp_map]
            congr 1
            funext outcome
            cases outcome <;> rfl
          rw [perform, adapt_bind, induction, same]
      | note event =>
          rw [perform, adapt_bind, induction, adapt_lift]

theorem Script.play_rebase (script : Script α) (whole : Bytes) (base : Nat) :
    (script.rebase whole base).play outlet =
      (script.play outlet).adapt (Failure.rebase whole base) := by
  rw [play, play, adapt_bind, Outlet.adapt_perform, rebase]
  congr 1
  funext _
  cases script.result with
  | ok value => exact Eq.symm (adapt_pure _ _)
  | error fault => exact Eq.symm (adapt_throw _ _)

end Play

/-! ## The scripts of the passes -/

section Passes

variable (settings : Settings) (source : Bytes)

def Hollow.script : Script Tally :=
  (scanner settings).script source
    (fun written cursor => cursor.tally source written) .blocksHollowed

def Rules.script : Script Tally :=
  (scanner settings).script source
    (fun written position => position.cursor.tally source written) .rulesLaidOut

def Declarations.script : Script (Option Nat × Tally) :=
  (scanner settings).script source
    (fun written position => (position.rulesStart, position.tally source written))
    fun (rulesStart, tally) => .declarationsScanned rulesStart tally

def Tidy.script : Script Tally :=
  (Declarations.script settings source).bind fun
    | (none, declarations) => { acts := [], result := .ok declarations }
    | (some start, declarations) =>
        ((Rules.script settings (source.drop start)).rebase source start).bind fun rules =>
          { acts := [], result := .ok (declarations.followedBy rules) }

def Mode.script (mode : Mode) : Script Tally :=
  match mode with
  | .hollow => Hollow.script settings source
  | .tidy => Tidy.script settings source

def Pass.script (pass : Pass) : Script pass.Result :=
  match pass with
  | .hollow => Hollow.script settings source
  | .declarations => Declarations.script settings source
  | .rules => Rules.script settings source
  | .tidy => Tidy.script settings source
  | .job mode => mode.script settings source

variable [Monad m] [LawfulMonad m] (outlet : Outlet m Refusal)

theorem Hollow.run_eq_play :
    Hollow.run outlet settings source = (Hollow.script settings source).play outlet :=
  (scanner settings).summarize_eq_play outlet source _ _

theorem Rules.run_eq_play :
    Rules.run outlet settings source = (Rules.script settings source).play outlet :=
  (scanner settings).summarize_eq_play outlet source _ _

theorem Declarations.run_eq_play :
    Declarations.run outlet settings source =
      (Declarations.script settings source).play outlet :=
  (scanner settings).summarize_eq_play outlet source _ _

theorem Tidy.run_eq_play :
    Tidy.run outlet settings source = (Tidy.script settings source).play outlet := by
  rw [Tidy.run, script, Script.play_bind, Declarations.run_eq_play]
  congr 1
  funext declared
  rcases declared with ⟨_ | start, declarations⟩
  · simp [Script.play, Outlet.perform]
  · dsimp only
    rw [Script.play_bind, Script.play_rebase, Rules.run_eq_play]
    congr 1
    funext rules
    simp [Script.play, Outlet.perform]

theorem Mode.run_eq_play (mode : Mode) :
    mode.run outlet settings source = (mode.script settings source).play outlet := by
  cases mode with
  | hollow => exact Hollow.run_eq_play settings source outlet
  | tidy => exact Tidy.run_eq_play settings source outlet

/-- A pass plays its script, whatever the outlet. -/
theorem Pass.run_eq_play (pass : Pass) :
    pass.run outlet settings source = (pass.script settings source).play outlet := by
  cases pass with
  | hollow => exact Hollow.run_eq_play settings source outlet
  | declarations => exact Declarations.run_eq_play settings source outlet
  | rules => exact Rules.run_eq_play settings source outlet
  | tidy => exact Tidy.run_eq_play settings source outlet
  | job mode => exact Mode.run_eq_play settings source outlet mode

end Passes

/-! ## Sinks -/

section Sinks

variable {σ : Type}

/-- A monad seen as changes to a state. -/
structure Observation (m : Type → Type) [Monad m] (σ : Type) where
  observe {α : Type} : m α → σ → α × σ
  observe_pure {α : Type} (value : α) (state : σ) : observe (pure value) state = (value, state)
  observe_bind {α β : Type} (first : m α) (next : α → m β) (state : σ) :
    observe (first >>= next) state =
      observe (next (observe first state).1) (observe first state).2

def Observation.state (σ : Type) : Observation (StateM σ) σ where
  observe scan held := scan.run held
  observe_pure _ _ := rfl
  observe_bind _ _ _ := rfl

def Observation.layer [Monad m] (below : Observation m σ) (τ : Type) :
    Observation (StateT τ m) (τ × σ) where
  observe scan state :=
    let ((value, upper), lower) := below.observe (scan.run state.1) state.2
    (value, upper, lower)
  observe_pure value state := by
    rw [StateT.run_pure, below.observe_pure]
  observe_bind first next state := by
    rw [StateT.run_bind, below.observe_bind]

theorem Observation.observe_layer [Monad m] (below : Observation m σ) {τ : Type}
    (scan : StateT τ m α) (upper : τ) (lower : σ) :
    (below.layer τ).observe scan (upper, lower) =
      ((below.observe (scan.run upper) lower).1.1, (below.observe (scan.run upper) lower).1.2,
        (below.observe (scan.run upper) lower).2) := rfl

variable [Monad m]

/-- What an outlet does to a chunk, seen from outside. -/
structure Outlet.Behaves (outlet : Outlet m Refusal) (view : Observation m σ)
    (put : Bytes → σ → Except Refusal Unit × σ) : Prop where
  put : ∀ chunk state, view.observe (outlet.put chunk).run state = put chunk state
  note : ∀ event state, view.observe (outlet.note event) state = ((), state)

theorem Outlet.behaves_ofPut (put : Bytes → σ → Except Refusal Unit × σ) :
    (Outlet.ofPut put).Behaves (.state σ) put where
  put _ _ := rfl
  note _ _ := rfl

variable {outlet : Outlet m Refusal} {view : Observation m σ}
  {put : Bytes → σ → Except Refusal Unit × σ}

theorem Outlet.Behaves.counted (behaves : outlet.Behaves view put) :
    outlet.counted.Behaves (view.layer Nat) (countedPut put) where
  put chunk state := by
    rcases state with ⟨count, held⟩
    have seen : view.observe ((outlet.counted.put chunk).run.run count) held =
        (((countedPut put chunk (count, held)).1, (countedPut put chunk (count, held)).2.1),
          (countedPut put chunk (count, held)).2.2) := by
      change view.observe ((outlet.put chunk).run >>= _) held = _
      rw [view.observe_bind, behaves.put, countedPut]
      rcases put chunk held with ⟨refusal | accepted, later⟩
      · exact view.observe_pure _ _
      · exact view.observe_pure _ _
    rw [Observation.observe_layer, seen]
  note event state := by
    rcases state with ⟨count, held⟩
    have run : (outlet.counted.note event).run count = (do
        outlet.note event
        return ((), count)) := rfl
    rw [Observation.observe_layer, run, view.observe_bind, behaves.note, view.observe_pure]

variable [LawfulMonad m]

theorem Outlet.observe_perform_note (outlet : Outlet m Refusal) (view : Observation m σ)
    (event : Event) (rest : List Act) (state : σ) :
    view.observe (outlet.perform (.note event :: rest)).run state =
      view.observe (outlet.perform rest).run (view.observe (outlet.note event) state).2 := by
  have noted : (outlet.perform (.note event :: rest)).run =
      outlet.note event >>= fun _ => (outlet.perform rest).run := by
    rw [perform, ExceptT.run_bind, ExceptT.run_liftM, bind_map_left]
  rw [noted, view.observe_bind]

theorem Outlet.observe_perform_put (outlet : Outlet m Refusal) (view : Observation m σ)
    (chunk : Bytes) (rest : List Act) (state : σ) :
    view.observe (outlet.perform (.put chunk :: rest)).run state =
      match view.observe (outlet.put chunk).run state with
      | (.ok (), later) => view.observe (outlet.perform rest).run later
      | (.error refusal, later) => (.error (.refused refusal), later) := by
  have adapted : ((outlet.put chunk).adapt Failure.refused).run =
      Except.mapError Failure.refused <$> (outlet.put chunk).run := rfl
  rw [perform, ExceptT.run_bind, adapted, bind_map_left, view.observe_bind]
  rcases view.observe (outlet.put chunk).run state with ⟨refusal | taken, later⟩
  · exact view.observe_pure _ _
  · rfl

theorem Outlet.Behaves.perform (behaves : outlet.Behaves view put) (acts : List Act)
    (state : σ) :
    view.observe (outlet.perform acts).run state =
      ((deliver put (Act.chunks acts) state).answer (.ok ()),
        (deliver put (Act.chunks acts) state).held) := by
  induction acts generalizing state with
  | nil => exact view.observe_pure _ _
  | cons act rest induction =>
      cases act with
      | note event =>
          rw [outlet.observe_perform_note, behaves.note, induction]
          rfl
      | put chunk =>
          rw [outlet.observe_perform_put, behaves.put]
          change _ = ((deliver put (chunk :: Act.chunks rest) state).answer _,
            (deliver put (chunk :: Act.chunks rest) state).held)
          rw [deliver]
          rcases put chunk state with ⟨refusal | accepted, later⟩
          · rfl
          · exact induction later

omit [LawfulMonad m] in
theorem Script.observe_play (script : Script α) (outlet : Outlet m Refusal)
    (view : Observation m σ) (state : σ) :
    view.observe (script.play outlet).run state =
      match view.observe (outlet.perform script.acts).run state with
      | (.ok (), later) => (script.result.mapError .faulty, later)
      | (.error failure, later) => (.error failure, later) := by
  rw [play, ExceptT.run_bind, view.observe_bind]
  rcases view.observe (outlet.perform script.acts).run state with ⟨failure | performed, later⟩
  · exact view.observe_pure _ _
  · cases script.result <;> exact view.observe_pure _ _

theorem Outlet.Behaves.play (behaves : outlet.Behaves view put) (script : Script α)
    (state : σ) :
    view.observe (script.play outlet).run state =
      ((deliver put script.chunks state).answer script.result,
        (deliver put script.chunks state).held) := by
  rw [script.observe_play, behaves.perform, Delivery.answer, Delivery.answer, Script.chunks]
  cases (deliver put (Act.chunks script.acts) state).refusal <;> rfl

end Sinks

theorem Script.play_memory (script : Script α) (held : Array UInt8) :
    (script.play Outlet.memory).run.run held =
      (script.result.mapError .faulty, held ++ script.chunks.flatten) := by
  have played := (Outlet.behaves_ofPut memoryPut).play script held
  rw [deliver_memoryPut] at played
  rw [memory_eq_ofPut]
  exact played

/-- Every pass is a list of chunks and a result, both settled before it meets its
sink. A sink gets the chunks one by one until it refuses one, and the result is
told only if it refuses none. So a memory gains all the chunks, a count grows by
the chunks that were taken, and a writer with limited room holds those of them
that come before the first that does not fit. -/
theorem Pass.run_eq_deliver (pass : Pass) (settings : Settings) (source : Bytes) :
    ∃ (chunks : List Bytes) (result : Except Fault pass.Result),
      (∀ (σ Refusal : Type) (put : Bytes → σ → Except Refusal Unit × σ) (held : σ) (count : Nat),
        let delivery := deliver put chunks held
        ((delivery.refusal = none ∧ delivery.accepted = chunks) ∨
            ∃ chunk rest before refusal, delivery.refusal = some refusal ∧
              chunks = delivery.accepted ++ chunk :: rest ∧
              put chunk before = (.error refusal, delivery.held)) ∧
          (pass.run (Outlet.ofPut put) settings source).run.run held =
            (delivery.answer result, delivery.held) ∧
          ((pass.run (Outlet.ofPut put).counted settings source).run.run count).run held =
            ((delivery.answer result, count + delivery.accepted.flatten.length),
              delivery.held)) ∧
      (∀ held, (pass.run Outlet.memory settings source).run.run held =
        (result.mapError .faulty, held ++ chunks.flatten)) ∧
      ∀ most held, ∃ accepted rest,
        let later := ((pass.run (Outlet.bounded (some most)) settings source).run.run held).2
        chunks = accepted ++ rest ∧ later = held ++ accepted.flatten ∧
          later.size ≤ max held.size most ∧
          (rest = [] ∨ ∃ chunk others, rest = chunk :: others ∧
            most < later.size + chunk.length) := by
  let script := pass.script settings source
  have direct : ∀ {σ Refusal : Type} (put : Bytes → σ → Except Refusal Unit × σ) (held : σ),
      (pass.run (Outlet.ofPut put) settings source).run.run held =
        ((deliver put script.chunks held).answer script.result,
          (deliver put script.chunks held).held) := by
    intro σ Refusal put held
    rw [Pass.run_eq_play]
    exact (Outlet.behaves_ofPut put).play script held
  refine ⟨script.chunks, script.result, ?_, ?_, ?_⟩
  · intro σ Refusal put held count
    refine ⟨deliver_cases put script.chunks held, direct put held, ?_⟩
    have counted := (Outlet.behaves_ofPut put).counted.play script (count, held)
    rw [deliver_countedPut, Observation.observe_layer] at counted
    simp only [Prod.mk.injEq] at counted
    rcases counted with ⟨answer, total, left⟩
    rw [Pass.run_eq_play]
    exact Prod.ext (Prod.ext answer total) left
  · intro held
    rw [Pass.run_eq_play]
    exact script.play_memory held
  · intro most held
    rcases deliver_boundedPut most script.chunks held with ⟨rest, split, holds, size, next⟩
    refine ⟨_, rest, split, ?_⟩
    rw [bounded_eq_ofPut, direct]
    exact ⟨holds, size, next⟩

end GrammarTidy
