import GrammarTidy.Proofs.FileEffects

/-! What a run tells of when its output refuses what it is given. Behind the buffer the
refusal is noticed only when the buffer is passed on, so that the room of the buffer
decides what fails first: the pass or its output. -/

namespace GrammarTidy

/-! ## The chunks of a pass -/

/-- Chunks of at most three bytes. -/
def Small (chunks : List Bytes) : Prop := ∀ chunk ∈ chunks, chunk.length ≤ 3

private theorem Small.append {first second : List Bytes} (firstSmall : Small first)
    (secondSmall : Small second) : Small (first ++ second) := by
  intro chunk member
  rcases List.mem_append.mp member with earlier | later
  · exact firstSmall chunk earlier
  · exact secondSmall chunk later

private theorem small_nil : Small [] := nofun

private theorem small_singleton {chunk : Bytes} (small : chunk.length ≤ 3) : Small [chunk] := by
  intro other member
  rw [List.mem_singleton.mp member]
  exact small

private theorem small_byte (byte : UInt8) : Small [[byte]] :=
  small_singleton (Nat.le_add_left 1 2)

variable {State α β : Type}

def Move.chunks : Move State → List Bytes
  | .one chunks _ | .two chunks _ | .stop chunks _ => chunks
  | .reject _ => []

private theorem Scanner.small_trace {scanner : Scanner State}
    (moves : ∀ state byte next, Small (scanner.move state byte next).chunks)
    (rest : Bytes) (state : State) : Small (scanner.trace rest state).chunks := by
  fun_induction scanner.trace rest state with
  | case1 => exact small_nil
  | case2 _ _ _ chunks next move induction =>
      have here : Small (Move.one chunks next).chunks := move ▸ moves _ _ _
      exact here.append induction
  | case3 _ _ chunks next move =>
      have here : Small (Move.two chunks next).chunks := move ▸ moves _ _ _
      exact here
  | case4 _ _ chunks next _ _ move induction =>
      have here : Small (Move.two chunks next).chunks := move ▸ moves _ _ _
      exact here.append induction
  | case5 _ _ _ chunks last move =>
      have here : Small (Move.stop chunks last).chunks := move ▸ moves _ _ _
      exact here
  | case6 => exact small_nil

private theorem Act.chunks_append (first second : List Act) :
    Act.chunks (first ++ second) = Act.chunks first ++ Act.chunks second :=
  List.filterMap_append

private theorem Act.chunks_map_put (chunks : List Bytes) :
    Act.chunks (chunks.map .put) = chunks := by
  rw [Act.chunks, List.filterMap_map]
  exact List.filterMap_some

theorem Scanner.chunks_script (scanner : Scanner State) (source : Bytes)
    (value : Nat → State → β) (event : β → Event) :
    (scanner.script source value event).chunks =
      (scanner.trace source scanner.initial).chunks := by
  rw [Script.chunks, Scanner.script, Act.chunks_append, Act.chunks_map_put]
  cases scanner.verdict source <;> exact List.append_nil _

theorem Scanner.small_script {scanner : Scanner State}
    (moves : ∀ state byte next, Small (scanner.move state byte next).chunks)
    (source : Bytes) (value : Nat → State → β) (event : β → Event) :
    Small (scanner.script source value event).chunks := by
  rw [chunks_script]
  exact small_trace moves source scanner.initial

private theorem Script.small_bind {first : Script α} {next : α → Script β}
    (firstSmall : Small first.chunks) (nextSmall : ∀ value, Small (next value).chunks) :
    Small (first.bind next).chunks := by
  rw [Script.bind]
  split
  · exact firstSmall
  · rw [Script.chunks, Act.chunks_append]
    exact firstSmall.append (nextSmall _)

section Passes

variable (settings : Settings)

private theorem small_of_kept (kept : Bool) (byte : UInt8) :
    Small (if kept then [[byte]] else []) := by
  cases kept with
  | true => exact small_byte byte
  | false => exact small_nil

theorem Hollow.small_move (cursor : Cursor) (byte : UInt8) (next : Option UInt8) :
    Small ((scanner settings).move cursor byte next).chunks := by
  dsimp only [scanner]
  cases settings.strict && cursor.strays byte with
  | true => exact small_nil
  | false => exact small_of_kept _ byte

theorem Declarations.small_move (position : Position) (byte : UInt8) (next : Option UInt8) :
    Small ((scanner settings).move position byte next).chunks := by
  have kept := small_of_kept (keeps position.cursor.nesting byte) byte
  dsimp only [scanner]
  cases settings.strict && position.cursor.strays byte with
  | true => exact small_nil
  | false =>
      cases isMarkerHalf settings position.cursor.nesting byte && position.afterPercent with
      | true => exact kept.append (small_singleton (by decide))
      | false => exact kept

private theorem Rules.small_chunks (nesting : Nesting) (previous byte : UInt8) :
    Small (chunks nesting previous byte) := by
  have token : Small (tokenChunks previous byte) := by
    unfold tokenChunks
    split
    · exact small_nil
    · split
      · exact (small_byte Byte.space).append (small_byte byte)
      · exact small_byte byte
  have separator : ∀ layout, separator? byte = some layout → layout.length ≤ 3 := by
    intro layout found
    unfold separator? at found
    split at found
    · cases found
      decide
    · split at found
      · cases found
        decide
      · split at found
        · cases found
          decide
        · cases found
  unfold chunks
  split
  · split
    · next layout found =>
        apply small_singleton
        apply separator
        split at found
        · cases found
        · exact found
    · exact token
  · exact small_nil

theorem Rules.small_move (position : Position) (byte : UInt8) (next : Option UInt8) :
    Small ((scanner settings).move position byte next).chunks := by
  dsimp only [scanner]
  split
  · split <;> exact small_nil
  · split
    · exact small_nil
    · split
      · exact small_nil
      · exact small_chunks _ _ _

private theorem Rules.small_script (source : Bytes) : Small (Rules.script settings source).chunks :=
  Scanner.small_script (small_move settings) source _ _

theorem Mode.small_script (mode : Mode) (source : Bytes) :
    Small (mode.script settings source).chunks := by
  cases mode with
  | hollow => exact Scanner.small_script (Hollow.small_move settings) source _ _
  | tidy =>
      apply Script.small_bind
      · exact Scanner.small_script (Declarations.small_move settings) source _ _
      · rintro ⟨_ | start, declarations⟩
        · exact small_nil
        · apply Script.small_bind
          · exact Rules.small_script settings (source.drop start)
          · exact fun _ => small_nil

end Passes

/-- The result of a script is settled before anything it puts has to leave a buffer with
some room. After a good end the buffer is passed on, so then nothing may be in it. -/
def Script.StaysBehind (script : Script α) (room : Nat) : Prop :=
  match script.result with
  | .ok _ => script.output.length = 0
  | .error _ => script.output.length ≤ room

private theorem Script.staysBehind_of_ok {script : Script α} {value : α}
    (result : script.result = .ok value) (room : Nat) :
    script.StaysBehind room ↔ script.output.length = 0 := by
  rw [StaysBehind, result]

private theorem Script.staysBehind_of_error {script : Script α} {fault : Fault}
    (result : script.result = .error fault) (room : Nat) :
    script.StaysBehind room ↔ script.output.length ≤ room := by
  rw [StaysBehind, result]

/-! ## Outlets that refuse everything -/

section Refusing

variable {m : Type → Type} {Refusal σ : Type} [Monad m]

namespace Outlet

/-- An outlet that refuses every chunk with something in it, for one of some causes, as
long as its state is valid. The state stays valid whatever is put or told. -/
structure Refuses (outlet : Outlet m Refusal) (view : Observation m σ) (valid : σ → Prop)
    (Cause : Refusal → Prop) : Prop where
  put : ∀ {state} (chunk : Bytes), valid state → chunk ≠ [] →
    ∃ cause later, Cause cause ∧ valid later ∧
      view.observe (outlet.put chunk).run state = (.error cause, later)
  note : ∀ {state} (event : Event), valid state → valid (view.observe (outlet.note event) state).2

variable {outlet : Outlet m Refusal} {view : Observation m σ} {valid : σ → Prop}
  {Cause : Refusal → Prop} {held : Array UInt8} {state : σ}

theorem Refuses.drain (refuses : outlet.Refuses view valid Cause) (starts : valid state)
    (nonempty : held ≠ #[]) :
    ∃ cause later, Cause cause ∧ valid later ∧
      view.observe (outlet.drain.run.run held) state = ((.error cause, held), later) := by
  have full : held.toList ≠ [] := fun empty => nonempty (Array.toList_eq_nil_iff.mp empty)
  rcases refuses.put held.toList starts full with ⟨cause, later, isCause, remains, refused⟩
  refine ⟨cause, later, isCause, remains, ?_⟩
  rw [run_drain, if_neg (by simpa using nonempty), view.observe_bind, refused,
    view.observe_pure]

variable [LawfulMonad m]

theorem Refuses.buffered_put (refuses : outlet.Refuses view valid Cause) {room : Nat}
    {chunk : Bytes} (small : chunk.length ≤ room) (starts : valid state) :
    (held.size + chunk.length ≤ room ∧
      (view.layer (Array UInt8)).observe ((outlet.buffered room).put chunk).run (held, state) =
        (.ok (), held ++ chunk, state)) ∨
    room < held.size + chunk.length ∧ ∃ cause left later, Cause cause ∧
      (view.layer (Array UInt8)).observe ((outlet.buffered room).put chunk).run (held, state) =
        (.error cause, left, later) := by
  rw [Observation.observe_layer, run_buffered_put]
  by_cases full : held.size + chunk.length > room
  · have nonempty : held ≠ #[] := by
      rintro rfl
      rw [Array.size_empty] at full
      omega
    rcases refuses.drain starts nonempty with ⟨cause, later, isCause, -, drained⟩
    rw [if_pos full, view.observe_bind, drained, view.observe_pure]
    exact .inr ⟨full, cause, held, later, isCause, rfl⟩
  · rw [if_neg full, view.observe_pure]
    exact .inl ⟨Nat.le_of_not_lt full, rfl⟩

theorem Refuses.perform (refuses : outlet.Refuses view valid Cause) {room : Nat}
    (acts : List Act) (held : Array UInt8)
    (small : ∀ chunk ∈ Act.chunks acts, chunk.length ≤ room)
    (within : held.size ≤ room) (starts : valid state) :
    let total := held.size + (Act.chunks acts).flatten.length
    let performed := (view.layer (Array UInt8)).observe
      ((outlet.buffered room).perform acts).run (held, state)
    (total ≤ room ∧ ∃ later, valid later ∧
      performed = (.ok (), held ++ (Act.chunks acts).flatten, later)) ∨
    room < total ∧ ∃ cause left later, Cause cause ∧
      performed = (.error (.refused cause), left, later) := by
  induction acts generalizing held state with
  | nil =>
      refine .inl ⟨within, state, starts, ?_⟩
      have nothing : (Act.chunks []).flatten = [] := rfl
      rw [nothing, Array.appendList_nil]
      exact Observation.observe_pure _ _ _
  | cons act rest induction =>
      cases act with
      | note event =>
          rw [Outlet.observe_perform_note, observe_buffered_note]
          exact induction held small within (refuses.note event starts)
      | put chunk =>
          have chunks : Act.chunks (.put chunk :: rest) = chunk :: Act.chunks rest := rfl
          rw [chunks, List.forall_mem_cons] at small
          rw [Outlet.observe_perform_put, chunks, List.flatten_cons, List.length_append,
            ← Nat.add_assoc]
          rcases refuses.buffered_put small.1 starts with
            ⟨fits, put⟩ | ⟨full, cause, left, later, isCause, put⟩
          · have whole := append_append_list held chunk (Act.chunks rest).flatten
            rw [put, ← size_append, ← whole]
            rw [← size_append] at fits
            exact induction _ small.2 fits starts
          · rw [put]
            exact .inr ⟨Nat.lt_add_right _ full, cause, left, later, isCause, rfl⟩

/-- What a script comes to through a buffer, before an outlet that refuses everything.
It is its own result as long as no refusal is met before that is settled. -/
theorem Refuses.withBuffer (refuses : outlet.Refuses view valid Cause) {room : Nat}
    (script : Script α) (small : ∀ chunk ∈ script.chunks, chunk.length ≤ room)
    (starts : valid state) :
    let outcome := (view.observe (outlet.withBuffer room script.play).run state).1
    (script.StaysBehind room ∧ outcome = script.result.mapError .faulty) ∨
      ¬ script.StaysBehind room ∧ ∃ cause, Cause cause ∧ outcome = .error (.refused cause) := by
  have put : (Act.chunks script.acts).flatten = script.output := rfl
  rw [observe_withBuffer, observe_drain_after, Script.observe_play, Script.StaysBehind]
  rcases refuses.perform script.acts #[] small (Nat.zero_le room) starts with
    ⟨fits, later, remains, performed⟩ | ⟨full, cause, left, later, isCause, performed⟩
  · rw [Array.size_empty, Nat.zero_add, put] at fits
    rw [performed, put]
    cases result : script.result with
    | error fault => exact .inl ⟨fits, rfl⟩
    | ok value =>
        rw [mapError_ok]
        dsimp only
        by_cases empty : script.output = []
        · rw [empty, Array.appendList_nil, outlet.observe_drain_empty]
          exact .inl ⟨rfl, rfl⟩
        · have something : (#[] : Array UInt8) ++ script.output ≠ #[] := by
            simpa using empty
          rcases refuses.drain remains something with ⟨cause, last, isCause, -, drained⟩
          rw [drained]
          exact .inr ⟨mt List.length_eq_zero_iff.mp empty, cause, isCause, rfl⟩
  · rw [Array.size_empty, Nat.zero_add, put] at full
    rw [performed]
    refine .inr ⟨?_, cause, isCause, rfl⟩
    cases script.result with
    | error fault => exact Nat.not_le_of_lt full
    | ok value => exact Nat.ne_zero_of_lt full

end Outlet

end Refusing

/-! ## Outputs of a host -/

namespace Command

variable {σ : Type}

/-- An output that refuses every write with something in it, for one of some causes, as
long as the state is valid. Neither a refusal nor a report makes the state invalid. -/
structure Host.Refuses (host : Host (StateM σ))
    (write : Bytes → ExceptT SystemError (StateM σ) Unit) (valid : σ → Prop)
    (Cause : SystemError → Prop) : Prop where
  write : ∀ {state} (bytes : Bytes), valid state → bytes ≠ [] →
    ∃ cause later, Cause cause ∧ valid later ∧
      (write bytes).run.run state = (.error cause, later)
  report : ∀ {state} (line : String), valid state → valid ((host.report line).run state).2

/-- An output that takes every write. The state shows what it has received, also after
a report. -/
structure Host.Receives (host : Host (StateM σ))
    (write : Bytes → ExceptT SystemError (StateM σ) Unit) (holds : Bytes → σ → Prop) :
    Prop where
  write : ∀ {received state} (bytes : Bytes), holds received state →
    ∃ later, (write bytes).run.run state = (.ok (), later) ∧ holds (received ++ bytes) later
  report : ∀ {received state} (line : String), holds received state →
    holds received ((host.report line).run state).2

section Outputs

variable {host : Host (StateM σ)} {valid : σ → Prop}

theorem Host.log_keeps
    (report : ∀ {state} (line : String), valid state → valid ((host.report line).run state).2)
    (limit : Level) (entry : Entry) {state : σ} (starts : valid state) :
    valid ((host.log limit entry).run state).2 := by
  have all : ∀ (lines : List String) {state : σ}, valid state →
      valid ((lines.forM host.report).run state).2 := by
    intro lines
    induction lines with
    | nil => exact id
    | cons line rest induction => exact fun starts => induction (report line starts)
  unfold Host.log
  split
  · exact all entry.lines starts
  · exact starts

variable {write : Bytes → ExceptT SystemError (StateM σ) Unit}

theorem Host.Refuses.outlet {Cause : SystemError → Prop}
    (refuses : host.Refuses write valid Cause) (limit : Level) :
    (host.outlet limit write).Refuses (.state σ) valid Cause where
  put chunk starts nonempty := refuses.write chunk starts nonempty
  note event starts := Host.log_keeps refuses.report limit (.scan event) starts

theorem Host.Receives.outlet {holds : Bytes → σ → Prop} (receives : host.Receives write holds)
    (limit : Level) :
    (host.outlet limit write).Takes (.state σ) (fun received _ state => holds received state) where
  put chunk starts := receives.write chunk starts
  note event starts := ⟨_, rfl, Host.log_keeps receives.report limit (.scan event) starts⟩

variable {invocation : Invocation} {start opened : σ}

private theorem mapError_faulty_eq_ok {result : Except Fault Tally} {tally : Tally} :
    result.mapError OutputTrouble.faulty = .ok tally ↔ result = .ok tally := by
  constructor
  · intro same
    cases result with
    | error fault => cases same
    | ok other =>
        cases same
        rfl
  · rintro rfl
    rfl

private theorem mapError_faulty_eq_error {result : Except Fault Tally} {fault : Fault} :
    result.mapError OutputTrouble.faulty = .error (.faulty fault) ↔ result = .error fault := by
  constructor
  · intro same
    cases result with
    | error other =>
        cases same
        rfl
    | ok tally => cases same
  · rintro rfl
    rfl

theorem Host.Refuses.writeOutput {Cause : SystemError → Prop}
    (refuses : host.Refuses write valid Cause)
    (created : (host.create invocation.output).run.run start = (.ok write, opened))
    (starts : valid opened) (source : Bytes) :
    let script := invocation.script source
    let outcome := ((invocation.writeOutput host source).run.run start).1
    (script.StaysBehind Invocation.bufferRoom ∧ outcome = script.result.mapError .faulty) ∨
      ¬ script.StaysBehind Invocation.bufferRoom ∧
        ∃ cause, Cause cause ∧ outcome = .error (.cannotWrite invocation.output cause) := by
  have small : ∀ chunk ∈ (invocation.script source).chunks, chunk.length ≤ Invocation.bufferRoom := by
    intro chunk member
    have atMostThree := invocation.mode.small_script invocation.settings source chunk member
    exact Nat.le_trans atMostThree (by decide)
  rw [Invocation.run_writeOutput_of_create created]
  dsimp only
  rcases (refuses.outlet invocation.level).withBuffer _ small starts with
    ⟨behind, ended⟩ | ⟨noticed, cause, isCause, ended⟩
  · rw [ended]
    refine .inl ⟨behind, ?_⟩
    cases (invocation.script source).result <;> rfl
  · rw [ended]
    exact .inr ⟨noticed, cause, isCause, rfl⟩

theorem Host.Receives.writeOutput {holds : Bytes → σ → Prop}
    (receives : host.Receives write holds)
    (created : (host.create invocation.output).run.run start = (.ok write, opened))
    (starts : holds [] opened) (source : Bytes) :
    let script := invocation.script source
    ∃ last, (invocation.writeOutput host source).run.run start =
        (script.result.mapError .faulty, last) ∧ holds script.output last := by
  have taken : ∃ last, (Observation.state σ).observe
      ((host.outlet invocation.level write).withBuffer Invocation.bufferRoom
        (invocation.script source).play).run opened =
          ((invocation.script source).result.mapError .faulty, last) ∧
      holds ([] ++ (invocation.script source).output) last := by
    apply (receives.outlet invocation.level).withBuffer _ _ starts
    exact []
  rcases taken with ⟨last, ended, received⟩
  rw [Invocation.run_writeOutput_of_create created, ended]
  refine ⟨last, ?_, received⟩
  cases (invocation.script source).result <;> rfl

end Outputs

/-- What a run tells about its output. If the output refuses every write, the run ends
well only when there is nothing to write. It tells of a fault of its input when
everything before it fits into the buffer, and otherwise of the refusal. If the output
takes every write, the run ends as the pass does, and the output has received what
the pass puts in memory. -/
theorem Invocation.writeOutput_tells_first_failure {σ : Type} (invocation : Invocation)
    (host : Host (StateM σ)) (source : Bytes) (start opened : σ)
    (write : Bytes → ExceptT SystemError (StateM σ) Unit)
    (created : (host.create invocation.output).run.run start = (.ok write, opened)) :
    let (result, emitted) :=
      Outlet.inMemory (invocation.mode.run · invocation.settings source)
    let (outcome, last) := (invocation.writeOutput host source).run.run start
    (∀ valid Cause, host.Refuses write valid Cause → valid opened →
      (∀ tally, outcome = .ok tally ↔ result = .ok tally ∧ emitted.length = 0) ∧
      (∀ fault, outcome = .error (.faulty fault) ↔
        result = .error fault ∧ emitted.length ≤ 8192) ∧
      ((¬ ∃ tally, result = .ok tally ∧ emitted.length = 0) →
        (¬ ∃ fault, result = .error fault ∧ emitted.length ≤ 8192) →
        ∃ cause, Cause cause ∧ outcome = .error (.cannotWrite invocation.output cause))) ∧
    ∀ holds, host.Receives write holds → holds [] opened →
      (∀ tally, outcome = .ok tally ↔ result = .ok tally) ∧
      (∀ fault, outcome = .error (.faulty fault) ↔ result = .error fault) ∧
      holds emitted last := by
  rw [invocation.mode.inMemory_run, ← Invocation.script]
  rcases ran : (invocation.writeOutput host source).run.run start with ⟨outcome, last⟩
  constructor
  · intro valid Cause refuses starts
    rcases refuses.writeOutput created starts source with
      ⟨behind, ended⟩ | ⟨noticed, cause, isCause, ended⟩
    · rw [ran] at ended
      dsimp only at ended
      have nothing {tally} (result : (invocation.script source).result = .ok tally) :=
        (Script.staysBehind_of_ok result bufferRoom).mp behind
      have fits {fault} (result : (invocation.script source).result = .error fault) :=
        (Script.staysBehind_of_error result bufferRoom).mp behind
      refine ⟨fun tally => ?_, fun fault => ?_, fun notOk notFaulty => ?_⟩
      · rw [ended, mapError_faulty_eq_ok]
        exact ⟨fun result => ⟨result, nothing result⟩, And.left⟩
      · rw [ended, mapError_faulty_eq_error]
        exact ⟨fun result => ⟨result, fits result⟩, And.left⟩
      · cases result : (invocation.script source).result with
        | ok tally => exact absurd ⟨tally, result, nothing result⟩ notOk
        | error fault => exact absurd ⟨fault, result, fits result⟩ notFaulty
    · rw [ran] at ended
      cases ended
      refine ⟨fun tally => ⟨nofun, ?_⟩, fun fault => ⟨nofun, ?_⟩, fun _ _ => ⟨cause, isCause, rfl⟩⟩
      · rintro ⟨result, nothing⟩
        exact absurd ((Script.staysBehind_of_ok result _).mpr nothing) noticed
      · rintro ⟨result, fits⟩
        exact absurd ((Script.staysBehind_of_error result _).mpr fits) noticed
  · intro holds receives starts
    rcases receives.writeOutput created starts source with ⟨later, ended, received⟩
    rw [ran] at ended
    cases ended
    exact ⟨fun _ => mapError_faulty_eq_ok, fun _ => mapError_faulty_eq_error, received⟩

end Command

namespace Machine

theorem refuses_full (names : Names) :
    host.Refuses (write names) (·.volume.node? names = some (.device .full)) (· = .noSpace) where
  write := by
    intro machine bytes stands nonempty
    refine ⟨.noSpace, machine, rfl, stands, ?_⟩
    dsimp only [Machine.write, ExceptT.run_mk, StateT.run]
    rw [stands]
    dsimp only [Device.write]
    rw [if_neg (by simpa using nonempty)]
  report _ stands := stands

theorem receives_file (names : Names) :
    host.Receives (write names) (fun received machine =>
      machine.volume.node? names = some (.file received)) where
  write := by
    intro received machine bytes stands
    refine ⟨{ machine with volume := machine.volume.append names bytes }, ?_,
      (machine.volume.node?_append stands bytes).1⟩
    dsimp only [Machine.write, ExceptT.run_mk, StateT.run]
    rw [stands]
  report _ stands := stands

end Machine

/-- One input, with a fault behind two bytes that stay, on a device without room and on a
file. -/
theorem Command.Invocation.writeOutput_tells_first_failure_on_machine :
    let source := Bytes.ofText "ab\x7d"
    let machine : Machine := { volume := { nodes := [(["dev", "full"], .device .full)] } }
    let invocation (strict : Bool) (output : String) : Invocation :=
      { mode := .hollow
        settings := { strict, topLevelMarker := false }
        verbosity := 0
        quiet := false
        input := "g.y"
        output }
    let written (strict : Bool) (output : String) :=
      ((invocation strict output).writeOutput Machine.host source).run.run machine
    (∃ fault, (written true "/dev/full").1 = .error (.faulty fault)) ∧
      (written false "/dev/full").1 = .error (.cannotWrite "/dev/full" .noSpace) ∧
      (∃ tally, (written false "o.y").1 = .ok tally) ∧
      (written false "o.y").2.volume.node? ["o.y"] = some (.file (Bytes.ofText "ab")) := by
  intro source machine invocation written
  have strictEnd : ∃ fault, Outlet.inMemory (Mode.hollow.run ·
      { strict := true, topLevelMarker := false } source) = (.error fault, Bytes.ofText "ab") :=
    ⟨_, rfl⟩
  have lenientEnd : ∃ tally, Outlet.inMemory (Mode.hollow.run ·
      { strict := false, topLevelMarker := false } source) = (.ok tally, Bytes.ofText "ab") :=
    ⟨_, rfl⟩
  have opened : (Machine.host.create "/dev/full").run.run machine =
      (.ok (Machine.write ["dev", "full"]), machine) := rfl
  have made : (Machine.host.create "o.y").run.run machine = (.ok (Machine.write ["o.y"]),
      { machine with volume := machine.volume.set ["o.y"] (.file []) }) := rfl
  have full : machine.volume.node? ["dev", "full"] = some (.device .full) := rfl
  have tells (strict : Bool) :=
    (invocation strict "/dev/full").writeOutput_tells_first_failure Machine.host source _ _ _
      opened
  have told :=
    (invocation false "o.y").writeOutput_tells_first_failure Machine.host source _ _ _ made
  rcases strictEnd with ⟨fault, strictEnd⟩
  rcases lenientEnd with ⟨tally, lenientEnd⟩
  have strictly := tells true
  have leniently := tells false
  rw [strictEnd] at strictly
  rw [lenientEnd] at leniently told
  dsimp only [written]
  generalize ((invocation true "/dev/full").writeOutput Machine.host source).run.run machine =
    strictRun at *
  generalize ((invocation false "/dev/full").writeOutput Machine.host source).run.run machine =
    lenientRun at *
  generalize ((invocation false "o.y").writeOutput Machine.host source).run.run machine =
    fileRun at *
  rcases strictly.1 _ _ (Machine.refuses_full _) full with ⟨-, faulty, -⟩
  rcases leniently.1 _ _ (Machine.refuses_full _) full with ⟨-, -, refused⟩
  rcases told.2 _ (Machine.receives_file _) (machine.volume.node?_set_self _ _) with
    ⟨ok, -, received⟩
  rcases refused (by simp; decide) (by simp) with ⟨cause, rfl, refused⟩
  exact ⟨⟨fault, (faulty fault).mpr ⟨rfl, by decide⟩⟩, refused, ⟨tally, (ok tally).mpr rfl⟩,
    received⟩

end GrammarTidy
