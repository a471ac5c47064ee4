import GrammarTidy.Proofs.FileEffects
import GrammarTidy.Proofs.Tallies

/-! Whether a lenient run tells of braces that do not match. Each section of a file
ends at a depth of its own, and the tally keeps only that of the last one. So a file
can end in order although its declarations did not. -/

namespace GrammarTidy

open Byte Command

/-! ## The ends of the sections -/

def Declarations.endDepth (topLevelMarker : Bool) (source : Bytes) : Int :=
  depthBefore (roleAt source) ((markerEnd? topLevelMarker source).getD source.length)

def Rules.endDepth (rules : Bytes) : Int :=
  depthBefore (liveRoleAt rules) rules.length

theorem Declarations.endDepth_of_topLevel {source : Bytes} {start : Nat}
    (marked : markerEnd? true source = some start) : endDepth true source = 0 := by
  rcases Option.map_eq_some_iff.mp marked with ⟨before, first, rfl⟩
  have marks := (firstFrom_eq_some_iff.mp first).1
  rw [markerAt, Bool.and_eq_true, markerHalfAt, markerHalfAt] at marks
  simp only [Bool.and_eq_true, beq_iff_eq, Bool.not_true, Bool.false_or, decide_eq_true_eq] at marks
  rcases marks with ⟨-, second, -, outside⟩
  rw [endDepth, marked, Option.getD_some, depthBefore_succ, roleAt_percent second]
  exact outside

namespace Tidy

section Sections

variable (topLevelMarker : Bool) (source : Bytes)

/-- A section of the file ends at another depth than it started. -/
def Unbalanced : Prop :=
  Declarations.endDepth topLevelMarker source ≠ 0 ∨
    ∃ start, Declarations.markerEnd? topLevelMarker source = some start ∧
      Rules.endDepth (source.drop start) ≠ 0

/-- The declarations end at another depth than they started, but the rules after
them do not. -/
def Masked : Prop :=
  Declarations.endDepth topLevelMarker source ≠ 0 ∧
    ∃ start, Declarations.markerEnd? topLevelMarker source = some start ∧
      Rules.endDepth (source.drop start) = 0

end Sections

variable {settings : Settings} {source output : Bytes} {tally : Tally}

theorem not_masked_of_topLevel : ¬ Masked true source := by
  intro masked
  rcases masked with ⟨unbalanced, start, marked, -⟩
  exact unbalanced (Declarations.endDepth_of_topLevel marked)

theorem finalDepth_ne_zero_iff {topLevelMarker : Bool}
    (counts : tally.CountsSections topLevelMarker source output) :
    tally.finalDepth ≠ 0 ↔ Unbalanced topLevelMarker source ∧ ¬ Masked topLevelMarker source := by
  have depths := counts.depths
  unfold Unbalanced Masked Declarations.endDepth
  cases marked : Declarations.markerEnd? topLevelMarker source with
  | none =>
      rw [marked] at depths
      rw [depths.2]
      simp
  | some start =>
      rw [marked] at depths
      have ruled : tally.finalDepth = Rules.endDepth (source.drop start) := depths.2
      rw [ruled]
      simp only [Option.some.injEq, exists_eq_left']
      tauto

end Tidy

/-! ## The log -/

namespace Command.Invocation

variable {invocation : Invocation}

private theorem script_result_of_tidy (tidies : invocation.mode = .tidy) (contents : Bytes) :
    (invocation.script contents).result = Tidy.result invocation.settings contents := by
  have job := Mode.tidy.inMemory_run invocation.settings contents
  have pass := Tidy.inMemory_run invocation.settings contents
  rw [script, tidies]
  exact congrArg Prod.fst (job.symm.trans pass)

theorem unbalanced_mem_entries {contents : Bytes} {tally : Tally}
    (result : (invocation.script contents).result = .ok tally) (depth : Int) :
    .unbalanced depth ∈ invocation.entries contents ↔
      depth = tally.finalDepth ∧ tally.finalDepth ≠ 0 := by
  unfold entries closing
  rw [result]
  simp [and_comm]

end Command.Invocation

/-- A lenient tidying ends well whatever its braces do. It tells of unbalanced ones,
in its tally and in the log, unless those are masked: unless the declarations are
unbalanced and a marker inside of a block ends them before rules that are in order.
A marker that counts outside of blocks only masks nothing. -/
theorem Tidy.tells_of_unbalanced_unless_masked (settings : Settings)
    (lenient : settings.strict = false) (source : Bytes) :
    ∃ tally output, Outlet.inMemory (Tidy.run · settings source) = (.ok tally, output) ∧
      (tally.finalDepth ≠ 0 ↔ Unbalanced settings.topLevelMarker source ∧
        ¬ Masked settings.topLevelMarker source) ∧
      (settings.topLevelMarker = true → ¬ Masked settings.topLevelMarker source) ∧
      ∀ (machine : Machine) (invocation : Invocation) (names : Machine.Names),
        machine.volume.IsTree → invocation.mode = .tidy → invocation.settings = settings →
        machine.volume.find (.ofText invocation.input) = .ok (.file source) →
        machine.volume.place (.ofText invocation.output) = .ok names →
        ∃ later, (invocation.run Machine.host).run machine = (0, later) ∧
          later.reported = machine.reported ++
            (invocation.entries source).flatMap (Machine.shown invocation.level) ∧
          ∀ depth, .unbalanced depth ∈ invocation.entries source ↔
            depth = tally.finalDepth ∧ tally.finalDepth ≠ 0 := by
  rcases Tidy.result_of_lenient lenient source with ⟨tally, ok⟩
  have ran := Tidy.inMemory_run settings source
  rw [ok] at ran
  refine ⟨tally, Tidy.output settings source, ran,
    finalDepth_ne_zero_iff (Tidy.counts_of_result ok), ?_, ?_⟩
  · intro topLevel
    rw [topLevel]
    exact not_masked_of_topLevel
  · intro machine invocation names tree tidies same found placed
    have result : (invocation.script source).result = .ok tally := by
      rw [Invocation.script_result_of_tidy tidies, same, ok]
    rcases Invocation.run_of_result_ok tree found placed result with ⟨later, exits, became⟩
    exact ⟨later, exits, became.reported,
      Invocation.unbalanced_mem_entries result⟩

/-- The block of the declarations is never closed, and still the run has nothing to
tell of. -/
theorem Tidy.tells_of_unbalanced_unless_masked_open_union :
    let source := Bytes.ofText "%union \x7b\n%%\na : b ;\n"
    let machine : Machine := { volume := .ofFiles [("g.y", source)] }
    let invocation : Invocation :=
      { mode := .tidy
        settings := {}
        verbosity := 0
        quiet := false
        input := "g.y"
        output := "o.y" }
    Masked false source ∧
      ∃ tally output later, Outlet.inMemory (Tidy.run · {} source) = (.ok tally, output) ∧
        tally.finalDepth = 0 ∧
        (invocation.run Machine.host).run machine = (0, later) ∧
        ∀ depth, .unbalanced depth ∉ invocation.entries source := by
  intro source machine invocation
  have masked : Masked false source :=
    ⟨by decide +kernel, 11, by decide +kernel, by decide +kernel⟩
  have tree : machine.volume.IsTree := Machine.Volume.isTree_ofFiles _
  have found : machine.volume.find (.ofText "g.y") = .ok (.file source) := rfl
  have placed : machine.volume.place (.ofText "o.y") = .ok ["o.y"] := rfl
  have tidies : invocation.mode = .tidy := rfl
  have same : invocation.settings = {} := rfl
  have input : invocation.input = "g.y" := rfl
  have written : invocation.output = "o.y" := rfl
  clear_value source machine invocation
  rcases Tidy.tells_of_unbalanced_unless_masked {} rfl source with
    ⟨tally, output, ran, told, -, runs⟩
  have balanced : tally.finalDepth = 0 := by
    by_contra different
    exact (told.mp different).2 masked
  rcases runs machine invocation ["o.y"] tree tidies same (input ▸ found) (written ▸ placed) with
    ⟨later, exits, -, warned⟩
  refine ⟨masked, tally, output, later, ran, balanced, exits, ?_⟩
  intro depth listed
  exact ((warned depth).mp listed).2 balanced

/-- Braces that do not match can be reported as braces that do. -/
theorem Tidy.finalDepth_eq_zero_of_open_union :
    let source := Bytes.ofText "%union \x7b\n%%\na : b ;\n"
    Unbalanced false source ∧
      ∃ tally output, Outlet.inMemory (Tidy.run · {} source) = (.ok tally, output) ∧
        tally.finalDepth = 0 :=
  ⟨.inl (by decide +kernel), _, _, rfl, rfl⟩

end GrammarTidy
