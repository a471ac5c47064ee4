import GrammarTidy.Command.Run
import GrammarTidy.Machine
import GrammarTidy.Proofs.Buffering
import GrammarTidy.Proofs.VolumeTrees

/-! What a command line does to a machine: which file it changes, what it prints and
what it logs. The pass itself is known by its script, so that all of this comes down
to the order in which a run loads, creates, writes and reports. -/

namespace GrammarTidy

open Command

theorem Mode.inMemory_run (mode : Mode) (settings : Settings) (source : Bytes) :
    Outlet.inMemory (mode.run · settings source) =
      ((mode.script settings source).result, (mode.script settings source).output) := by
  apply Outlet.inMemory_of_run
  rw [Mode.run_eq_play]
  exact (mode.script settings source).play_memory #[]

namespace Command

variable {σ : Type} {host : Host (StateM σ)} {invocation : Invocation} {start opened : σ}
  {write : Bytes → ExceptT SystemError (StateM σ) Unit}

def Invocation.script (invocation : Invocation) (contents : Bytes) : Script Tally :=
  invocation.mode.script invocation.settings contents

theorem Invocation.run_writeOutput_of_create
    (created : (host.create invocation.output).run.run start = (.ok write, opened))
    (source : Bytes) :
    (invocation.writeOutput host source).run.run start =
      let ended := (Observation.state σ).observe
        ((host.outlet invocation.level write).withBuffer bufferRoom
          (invocation.script source).play).run opened
      (ended.1.mapError invocation.scanTrouble, ended.2) := by
  have adapted : ((host.create invocation.output).adapt
      (OutputTrouble.cannotCreate invocation.output)).run.run start = (.ok write, opened) := by
    rw [run_adapt, created]
    rfl
  rw [writeOutput, run_bind_of_ok adapted, run_adapt]
  simp only [Mode.run_eq_play]
  rfl

end Command

namespace Machine

variable {machine later : Machine} {limit : Level} {names : Names}

/-! ## The log -/

def shown (limit : Level) (entry : Entry) : List String :=
  if limit.isShown entry.level then entry.lines.flatMap (cut '\n') else []

def logged (machine : Machine) (limit : Level) (entries : List Entry) : Machine :=
  { machine with reported := machine.reported ++ entries.flatMap (shown limit) }

private theorem run_forM_report (lines : List String) (machine : Machine) :
    (lines.forM host.report).run machine =
      ((), { machine with reported := machine.reported ++ lines.flatMap (cut '\n') }) := by
  induction lines generalizing machine with
  | nil =>
      rw [List.flatMap_nil, Array.appendList_nil]
      rfl
  | cons line rest induction =>
      have first : (host.report line).run machine =
          ((), { machine with reported := machine.reported ++ cut '\n' line }) := rfl
      change ((rest.forM host.report).run ((host.report line).run machine).2) = _
      rw [first, induction, List.flatMap_cons, append_append_list]

theorem run_log (limit : Level) (entry : Entry) (machine : Machine) :
    (host.log limit entry).run machine = ((), machine.logged limit [entry]) := by
  unfold Host.log logged
  rw [List.flatMap_singleton, shown]
  split
  · exact run_forM_report entry.lines machine
  · rw [Array.appendList_nil]
    rfl

private theorem logged_logged (machine : Machine) (limit : Level) (first second : List Entry) :
    (machine.logged limit first).logged limit second =
      machine.logged limit (first ++ second) := by
  rw [logged, logged, logged, List.flatMap_append, ← append_append_list]

/-! ## Writing a file -/

/-- The machine after a run has changed one file, added to its log and printed
something. Everything else is as it was. -/
structure Became (machine : Machine) (limit : Level) (names : Names) (contents : Bytes)
    (entries : List Entry) (printed : Bytes) (later : Machine) : Prop where
  file : later.volume.node? names = some (.file contents)
  others : ∀ other, other ≠ names → later.volume.node? other = machine.volume.node? other
  current : later.volume.current = machine.volume.current
  reported : later.reported = (machine.logged limit entries).reported
  printed : later.printed = machine.printed ++ printed

variable {contents printed : Bytes} {entries : List Entry}

theorem Became.write (became : machine.Became limit names contents entries printed later)
    (bytes : Bytes) :
    ∃ next, (write names bytes).run.run later = (.ok (), next) ∧
      machine.Became limit names (contents ++ bytes) entries printed next := by
  rcases later.volume.node?_append became.file bytes with ⟨file, others⟩
  have current := (later.volume.current_append names bytes).trans became.current
  refine ⟨{ later with volume := later.volume.append names bytes }, ?_, file, ?_, current,
    became.reported, became.printed⟩
  · dsimp only [Machine.write, ExceptT.run_mk, StateT.run]
    rw [became.file]
  · intro other different
    rw [others other different, became.others other different]

theorem Became.log (became : machine.Became limit names contents entries printed later)
    (entry : Entry) :
    machine.Became limit names contents (entries ++ [entry]) printed
      (later.logged limit [entry]) := by
  refine ⟨became.file, became.others, became.current, ?_, became.printed⟩
  rw [← logged_logged, logged, became.reported]
  rfl

theorem Became.print (became : machine.Became limit names contents entries [] later)
    (bytes : Bytes) :
    machine.Became limit names contents entries bytes
      { later with printed := later.printed ++ bytes } := by
  refine ⟨became.file, became.others, became.current, became.reported, ?_⟩
  dsimp only
  rw [became.printed, Array.appendList_nil]

theorem Became.find (became : machine.Became limit names contents entries printed later)
    (tree : machine.volume.IsTree) {path : Path} (placed : machine.volume.place path = .ok names) :
    later.volume.find path = .ok (.file contents) := by
  apply Volume.find_of_placed _ became.current placed became.file
  intro folder isFolder
  rw [became.others folder, isFolder]
  intro same
  exact (tree.exists_folder placed).1 (same ▸ isFolder)

theorem outlet_takes (machine : Machine) (limit : Level) (names : Names)
    (before : List Entry) :
    (host.outlet limit (write names)).Takes (.state Machine)
      (fun written events later =>
        machine.Became limit names written (before ++ events.map .scan) [] later) where
  put := by
    intro written events later chunk became
    exact became.write chunk
  note := by
    intro written events later event became
    refine ⟨later.logged limit [.scan event], run_log limit (.scan event) later, ?_⟩
    have told := became.log (.scan event)
    rw [List.append_assoc] at told
    rw [List.map_append]
    exact told

theorem run_load (path : String) (machine : Machine) :
    (host.load path).run.run machine =
      ((match machine.volume.find (Path.ofText path) with
        | .error cause => .error (.cannotOpen cause)
        | .ok .folder => .error (.cannotRead .isFolder)
        | .ok (.file contents) => .ok { announced := contents.length, contents }
        | .ok (.device device) => .ok { announced := 0, contents := device.contents machine } :
        Except LoadError Loaded), machine) := rfl

theorem run_create (path : String) (machine : Machine) :
    (host.create path).run.run machine =
      match machine.volume.place (Path.ofText path) with
      | .error cause => (.error cause, machine)
      | .ok names =>
          match machine.volume.node? names with
          | some (.device _) => (.ok (write names), machine)
          | _ =>
              (.ok (write names),
                { machine with volume := machine.volume.set names (.file []) }) := rfl

end Machine

/-! ## Runs -/

namespace Command.Invocation

open Machine (Path)

variable {machine : Machine} {invocation : Invocation} {contents : Bytes} {names : Machine.Names}
  (tree : machine.volume.IsTree)
  (found : machine.volume.find (Path.ofText invocation.input) = .ok (.file contents))
  (placed : machine.volume.place (Path.ofText invocation.output) = .ok names)

include found in
theorem run_readInput :
    (invocation.readInput Machine.host).run.run machine = (.ok contents, machine) := by
  have loaded : ((Machine.host.load invocation.input).adapt
      (Trouble.loading invocation.input)).run.run machine =
      (.ok { announced := contents.length, contents }, machine) := by
    rw [run_adapt, Machine.run_load, found]
    rfl
  rw [readInput, run_bind_of_ok loaded]
  dsimp only
  rw [if_neg (by simp)]
  rfl

include tree placed in
private theorem run_create :
    (Machine.host.create invocation.output).run.run machine =
      (.ok (Machine.write names),
        { machine with volume := machine.volume.set names (.file []) }) := by
  rw [Machine.run_create, placed]
  dsimp only
  split
  · rename_i device stands
    exact absurd stands (tree.not_device device)
  · rfl

include tree placed in
private theorem became_create (limit : Level) (before : List Entry) :
    machine.Became limit names [] before []
      { machine.logged limit before with volume := machine.volume.set names (.file []) } where
  file := machine.volume.node?_set_self names _
  others _ different := tree.node?_set_of_place placed different _
  current := rfl
  reported := rfl
  printed := Array.appendList_nil.symm

include tree placed in
theorem run_writeOutput (before : List Entry) (source : Bytes) :
    ∃ later, (invocation.writeOutput Machine.host source).run.run
          (machine.logged invocation.level before) =
        ((invocation.script source).result.mapError .faulty, later) ∧
      machine.Became invocation.level names (invocation.script source).output
        (before ++ (invocation.script source).events.map .scan) [] later := by
  have kept : (machine.logged invocation.level before).volume.IsTree := tree
  have start : machine.Became invocation.level names [] (before ++ ([] : List Event).map .scan) []
      { machine.logged invocation.level before with
        volume := machine.volume.set names (.file []) } := by
    rw [List.map_nil, List.append_nil]
    exact became_create tree placed invocation.level before
  rcases (machine.outlet_takes invocation.level names before).withBuffer bufferRoom
    (invocation.script source) start with ⟨later, ran, became⟩
  refine ⟨later, ?_, became⟩
  rw [run_writeOutput_of_create (run_create kept placed)]
  apply (congrArg (fun ended => (ended.1.mapError invocation.scanTrouble, ended.2)) ran).trans
  cases (invocation.script source).result <;> rfl

/-! ### From the input to the exit code -/

section Whole

variable (invocation contents)

def closing (tally : Tally) : List Entry :=
  .finished tally :: if tally.finalDepth ≠ 0 then [.unbalanced tally.finalDepth] else []

def entries : List Entry :=
  .loaded invocation.mode invocation.input contents.length ::
    (invocation.script contents).events.map .scan ++
      match (invocation.script contents).result with
      | .ok tally => closing tally
      | .error _ => []

def progress : Bytes :=
  Bytes.ofText (invocation.input ++ " -> " ++ invocation.output ++ "\n")

end Whole

private theorem run_liftM_log {ε : Type} (limit : Level) (entry : Entry) (machine : Machine) :
    (liftM (Machine.host.log limit entry) : ExceptT ε (StateM Machine) Unit).run.run machine =
      (.ok (), machine.logged limit [entry]) := by
  have logged := Machine.run_log limit entry machine
  exact congrArg (fun ended => (Except.ok ended.1, ended.2)) logged

private theorem run_closing {output : Bytes} {before : List Entry} {later : Machine}
    (became : machine.Became invocation.level names output before [] later) (tally : Tally) :
    ∃ last, (do
          Machine.host.log invocation.level (.finished tally)
          if tally.finalDepth ≠ 0 then
            Machine.host.log invocation.level (.unbalanced tally.finalDepth)
          Machine.host.print (invocation.input ++ " -> " ++ invocation.output ++ "\n") :
        ExceptT Trouble (StateM Machine) Unit).run.run later = (.ok (), last) ∧
      machine.Became invocation.level names output (before ++ closing tally) invocation.progress
        last := by
  have finished := became.log (.finished tally)
  rw [run_bind_of_ok (run_liftM_log _ _ _)]
  unfold closing
  by_cases balanced : tally.finalDepth = 0
  · rw [if_neg (not_not_intro balanced), if_neg (not_not_intro balanced)]
    exact ⟨_, rfl, finished.print invocation.progress⟩
  · have warned := finished.log (.unbalanced tally.finalDepth)
    rw [List.append_assoc] at warned
    rw [if_pos balanced, if_pos balanced, run_bind_of_ok (run_liftM_log _ _ _)]
    exact ⟨_, rfl, warned.print invocation.progress⟩

include tree found placed in
theorem run_perform :
    ∃ later,
      (invocation.perform Machine.host).run.run machine =
        (match (invocation.script contents).result with
          | .ok _ => .ok ()
          | .error fault => .error (.processing invocation.input (.faulty fault)), later) ∧
      machine.Became invocation.level names (invocation.script contents).output
        (invocation.entries contents)
        (match (invocation.script contents).result with
          | .ok _ => invocation.progress
          | .error _ => []) later := by
  rcases run_writeOutput tree placed
    [.loaded invocation.mode invocation.input contents.length] contents with
    ⟨middle, written, became⟩
  have adapted : ((invocation.writeOutput Machine.host contents).adapt
      (Trouble.processing invocation.input)).run.run
        (machine.logged invocation.level
          [.loaded invocation.mode invocation.input contents.length]) =
      (((invocation.script contents).result.mapError .faulty).mapError
        (.processing invocation.input), middle) := by
    rw [run_adapt, written]
  rw [perform, run_bind_of_ok (run_readInput found), run_bind_of_ok (run_liftM_log _ _ _)]
  unfold entries
  cases result : (invocation.script contents).result with
  | error fault =>
      rw [result] at adapted
      rw [List.append_nil]
      exact ⟨middle, run_bind_of_error adapted _, became⟩
  | ok tally =>
      rw [result] at adapted
      rcases run_closing became tally with ⟨last, closed, done⟩
      exact ⟨last, (run_bind_of_ok adapted _).trans closed, done⟩

private theorem run_of_perform_ok {later : Machine}
    (performed : (invocation.perform Machine.host).run.run machine = (.ok (), later)) :
    (invocation.run Machine.host).run machine = (0, later) := by
  rw [run, StateT.run_bind, performed]
  rfl

private theorem run_of_perform_error {later : Machine} {trouble : Trouble}
    (performed : (invocation.perform Machine.host).run.run machine = (.error trouble, later)) :
    ∃ reported, (invocation.run Machine.host).run machine = (1, { later with reported }) := by
  have logged := Machine.run_log invocation.level (.failed trouble) later
  rw [run, StateT.run_bind, performed]
  change ∃ reported, ((do
    Machine.host.log invocation.level (.failed trouble)
    Machine.host.report ("Error: " ++ trouble.text)
    return 1 : StateM Machine UInt32).run later) = _
  rw [StateT.run_bind, logged]
  exact ⟨_, rfl⟩

include tree found placed in
theorem run_of_result_ok {tally : Tally}
    (result : (invocation.script contents).result = .ok tally) :
    ∃ later, (invocation.run Machine.host).run machine = (0, later) ∧
      machine.Became invocation.level names (invocation.script contents).output
        (invocation.entries contents) invocation.progress later := by
  rcases run_perform tree found placed with ⟨later, performed, became⟩
  rw [result] at performed became
  exact ⟨later, run_of_perform_ok performed, became⟩

include tree found placed in
theorem run_of_result_error {fault : Fault}
    (result : (invocation.script contents).result = .error fault) :
    ∃ later reported, (invocation.run Machine.host).run machine = (1, { later with reported }) ∧
      machine.Became invocation.level names (invocation.script contents).output
        (invocation.entries contents) [] later := by
  rcases run_perform tree found placed with ⟨later, performed, became⟩
  rw [result] at performed became
  rcases run_of_perform_error performed with ⟨reported, ran⟩
  exact ⟨later, reported, ran, became⟩

include tree in
private theorem run_of_not_file
    (notFile : ∀ contents, machine.volume.find (Path.ofText invocation.input) ≠
      .ok (.file contents)) :
    ∃ reported, (invocation.run Machine.host).run machine = (1, { machine with reported }) := by
  have loaded : ∃ error, (Machine.host.load invocation.input).run.run machine =
      (.error error, machine) := by
    rw [Machine.run_load]
    cases found : machine.volume.find (Path.ofText invocation.input) with
    | error cause => exact ⟨_, rfl⟩
    | ok node =>
        cases node with
        | folder => exact ⟨_, rfl⟩
        | file contents => exact absurd found (notFile contents)
        | device device => exact absurd found (tree.find_ne_device _ device)
  rcases loaded with ⟨error, loaded⟩
  have adapted : ((Machine.host.load invocation.input).adapt
      (Trouble.loading invocation.input)).run.run machine =
      (.error (.loading invocation.input error), machine) := by
    rw [run_adapt, loaded]
    rfl
  have read : (invocation.readInput Machine.host).run.run machine =
      (.error (.loading invocation.input error), machine) := by
    rw [readInput, run_bind_of_error adapted]
  exact run_of_perform_error (run_bind_of_error read _)

include found in
private theorem run_of_not_placed {cause : SystemError}
    (failed : machine.volume.place (Path.ofText invocation.output) = .error cause) :
    ∃ reported, (invocation.run Machine.host).run machine = (1, { machine with reported }) := by
  let middle := machine.logged invocation.level
    [.loaded invocation.mode invocation.input contents.length]
  have created : ((Machine.host.create invocation.output).adapt
      (OutputTrouble.cannotCreate invocation.output)).run.run middle =
      (.error (.cannotCreate invocation.output cause), middle) := by
    have failedToo : middle.volume.place (Path.ofText invocation.output) = .error cause := failed
    rw [run_adapt, Machine.run_create, failedToo]
    rfl
  have written : ((invocation.writeOutput Machine.host contents).adapt
      (Trouble.processing invocation.input)).run.run middle =
      (.error (.processing invocation.input (.cannotCreate invocation.output cause)), middle) := by
    rw [run_adapt, writeOutput, run_bind_of_error created]
    rfl
  have performed : (invocation.perform Machine.host).run.run machine =
      (.error (.processing invocation.input (.cannotCreate invocation.output cause)), middle) := by
    rw [perform, run_bind_of_ok (run_readInput found), run_bind_of_ok (run_liftM_log _ _ _),
      run_bind_of_error written]
  rcases run_of_perform_error performed with ⟨reported, ran⟩
  exact ⟨reported, ran⟩

include tree in
theorem run_of_not_ready
    (notReady : ¬ ∃ contents names,
      machine.volume.find (Path.ofText invocation.input) = .ok (.file contents) ∧
        machine.volume.place (Path.ofText invocation.output) = .ok names) :
    ∃ reported, (invocation.run Machine.host).run machine = (1, { machine with reported }) := by
  by_cases isFile : ∃ contents,
      machine.volume.find (Path.ofText invocation.input) = .ok (.file contents)
  · rcases isFile with ⟨contents, found⟩
    cases placed : machine.volume.place (Path.ofText invocation.output) with
    | error cause => exact run_of_not_placed found placed
    | ok names => exact absurd ⟨contents, names, found, placed⟩ notReady
  · exact run_of_not_file tree fun contents found => isFile ⟨contents, found⟩

end Command.Invocation

theorem Command.Refusal.run_answer (refusal : Refusal) (machine : Machine) :
    ∃ printed reported, (refusal.answer Machine.host).run machine =
      (refusal.exitCode, { machine with printed, reported }) := by
  cases refusal <;> exact ⟨_, _, rfl⟩

theorem Command.Refusal.exitCode_cases (refusal : Refusal) :
    refusal.exitCode = 2 ∨
      refusal.exitCode = 0 ∧ (refusal = .helpAsked ∨ refusal = .versionAsked) := by
  cases refusal <;> simp [Refusal.exitCode]

/-- What a command line does to the files of a machine. If it asks for nothing to be
done, or if its input cannot be read or its output cannot be made, no file is
changed. Otherwise the output is the one file that changes. It then holds what the
job puts in memory for the input as it was before the run, whether the job ends well
or at a fault. -/
theorem Command.run_changes_only_output (machine : Machine) (tree : machine.volume.IsTree)
    (words : List String) :
    let (code, later) := (Command.run Machine.host words).run machine
    match Invocation.ofWords words with
    | .error refusal =>
        (code = 2 ∨ code = 0 ∧ (refusal = .helpAsked ∨ refusal = .versionAsked)) ∧
          later.volume = machine.volume
    | .ok invocation =>
        match machine.volume.find (.ofText invocation.input),
            machine.volume.place (.ofText invocation.output) with
        | .ok (.file contents), .ok names =>
            let (result, emitted) :=
              Outlet.inMemory (invocation.mode.run · invocation.settings contents)
            later.volume.find (.ofText invocation.output) = .ok (.file emitted) ∧
              (∀ other, other ≠ names →
                later.volume.node? other = machine.volume.node? other) ∧
              match result with
              | .ok _ =>
                  code = 0 ∧ invocation.mode.apply invocation.settings contents = .ok emitted ∧
                    later.printed = machine.printed ++
                      Bytes.ofText (invocation.input ++ " -> " ++ invocation.output ++ "\n")
              | .error _ => code = 1 ∧ later.printed = machine.printed
        | _, _ =>
            code = 1 ∧ later.volume = machine.volume ∧ later.printed = machine.printed := by
  unfold Command.run
  cases Invocation.ofWords words with
  | error refusal =>
      rcases refusal.run_answer machine with ⟨printed, reported, answered⟩
      dsimp only
      rw [answered]
      exact ⟨refusal.exitCode_cases, rfl⟩
  | ok invocation =>
      dsimp only
      by_cases ready : ∃ contents names,
          machine.volume.find (.ofText invocation.input) = .ok (.file contents) ∧
            machine.volume.place (.ofText invocation.output) = .ok names
      · rcases ready with ⟨contents, names, found, placed⟩
        have ended := invocation.mode.inMemory_run invocation.settings contents
        rw [found, placed]
        dsimp only
        rw [ended]
        cases result : (invocation.mode.script invocation.settings contents).result with
        | ok tally =>
            rcases Invocation.run_of_result_ok tree found placed result with ⟨later, ran, became⟩
            rw [result] at ended
            rw [ran]
            exact ⟨became.find tree placed, became.others, rfl,
              Mode.apply_of_inMemory _ _ ended, became.printed⟩
        | error fault =>
            rcases Invocation.run_of_result_error tree found placed result with
              ⟨later, reported, ran, became⟩
            rw [ran]
            exact ⟨became.find tree placed, became.others, rfl,
              became.printed.trans Array.appendList_nil⟩
      · rcases Invocation.run_of_not_ready tree ready with ⟨reported, ran⟩
        rw [ran]
        dsimp only
        split
        · rename_i contents names found placed
          exact absurd ⟨contents, names, found, placed⟩ ready
        · exact ⟨rfl, rfl, rfl⟩

/-- A strict run that stops at a fault, with one file as its input and its output. -/
theorem Command.run_changes_only_output_same_file :
    let source := Bytes.ofText "a \x7b b \x7d c \x7d"
    let machine : Machine := { volume := .ofFiles [("g.y", source), ("o.y", [])] }
    let words := ["-c", "g.y", "--strict", "./g.y"]
    let (code, later) := (Command.run Machine.host words).run machine
    machine.volume.IsTree ∧ code = 1 ∧ later.printed = #[] ∧
      later.volume.find (.ofText "./g.y") = .ok (.file (Bytes.ofText "a \x7b\x7d c ")) ∧
      later.volume.node? ["o.y"] = some (.file []) := by
  intro source machine words
  have tree : machine.volume.IsTree := Machine.Volume.isTree_ofFiles _
  have asked : Invocation.ofWords words = .ok
      { mode := .hollow
        settings := { strict := true, topLevelMarker := false }
        verbosity := 0
        quiet := false
        input := "g.y"
        output := "./g.y" } := rfl
  have found : machine.volume.find (.ofText "g.y") = .ok (.file source) := rfl
  have placed : machine.volume.place (.ofText "./g.y") = .ok ["g.y"] := rfl
  have beside : machine.volume.node? ["o.y"] = some (.file []) := rfl
  have silent : machine.printed = #[] := rfl
  have emitted : ∃ fault, Outlet.inMemory
      (Mode.hollow.run · { strict := true, topLevelMarker := false } source) =
        (.error fault, Bytes.ofText "a \x7b\x7d c ") := ⟨_, rfl⟩
  clear_value source machine words
  have changed := Command.run_changes_only_output machine tree words
  rcases emitted with ⟨fault, emitted⟩
  rw [asked] at changed
  dsimp only at changed
  rw [found, placed] at changed
  dsimp only at changed
  rw [emitted] at changed
  rcases changed with ⟨written, others, failed, unprinted⟩
  exact ⟨tree, failed, unprinted.trans silent, written,
    (others ["o.y"] (by decide)).trans beside⟩

end GrammarTidy
