import GrammarTidy.Proofs.Delivery
import GrammarTidy.Proofs.Depth

/-! A strict scan does what a lenient one does, up to the brace at which it stops.
The two are compared move by move, once for all scanners, and then pass by
pass. -/

namespace GrammarTidy

variable {State α : Type}

def Move.next? : Move State → Option State
  | .one _ next => some next
  | .two _ next => some next
  | .stop _ last => some last
  | .reject _ => none

/-- A move that is the lenient one, or rejects a byte that would take the depth
below zero. -/
def Move.Cuts (strict lenient : Move State) (depth : State → Int) : Prop :=
  (strict = lenient ∧ ∀ after, lenient.next? = some after → 0 ≤ depth after) ∨
    ((∃ defect, strict = .reject defect ∧ defect.kind = .strayClose) ∧
      ∃ after, lenient.next? = some after ∧ depth after < 0)

namespace Scanner

/-- The states that a walk comes to, from the one it starts in to the one it ends
in. -/
def states (scanner : Scanner State) : Bytes → State → List State
  | [], state => [state]
  | byte :: rest, state =>
      state ::
        match scanner.move state byte rest.head? with
        | .one _ next => states scanner rest next
        | .two _ next =>
            match rest with
            | [] => [next]
            | _ :: later => states scanner later next
        | .stop _ last => [last]
        | .reject _ => []

private theorem mem_states_self (scanner : Scanner State) (rest : Bytes) (state : State) :
    state ∈ scanner.states rest state := by
  cases rest <;> simp [states]

private theorem mem_states_of_next? {scanner : Scanner State} {byte : UInt8} {rest : Bytes}
    {state after : State}
    (leads : (scanner.move state byte rest.head?).next? = some after) :
    after ∈ scanner.states (byte :: rest) state := by
  rw [states]
  apply List.mem_cons_of_mem
  cases move : scanner.move state byte rest.head? with
  | one chunks next =>
      rw [move] at leads
      cases leads
      exact mem_states_self scanner rest after
  | two chunks next =>
      rw [move] at leads
      cases leads
      cases rest with
      | nil => exact List.mem_singleton_self after
      | cons skipped later => exact mem_states_self scanner later after
  | stop chunks last =>
      rw [move] at leads
      cases leads
      exact List.mem_singleton_self after
  | reject defect =>
      rw [move] at leads
      cases leads

/-! ## Scanners that cut others short -/

/-- A scanner that moves as a lenient one does, as long as the depth is not
negative. -/
structure Cuts (strict lenient : Scanner State) (depth : State → Int) : Prop where
  initial : strict.initial = lenient.initial
  sound : 0 ≤ depth lenient.initial
  moves : ∀ state byte next, 0 ≤ depth state →
    (strict.move state byte next).Cuts (lenient.move state byte next) depth

section Cuts

variable (strict lenient : Scanner State) (depth : State → Int)

structure GoesAlong (rest : Bytes) (state : State) : Prop where
  trace : strict.trace rest state = lenient.trace rest state
  above : ∀ visited ∈ lenient.states rest state, 0 ≤ depth visited

/-- Two walks of which one is cut short, where the other comes to a negative
depth. -/
structure StopsShort (rest : Bytes) (state : State) : Prop where
  rejected : ∃ defect, (strict.trace rest state).ending = .rejected defect ∧
    defect.kind = .strayClose
  chunks : (strict.trace rest state).chunks <+: (lenient.trace rest state).chunks
  below : ∃ visited ∈ lenient.states rest state, depth visited < 0

variable {strict lenient depth} {byte : UInt8} {rest later : Bytes} {state next : State}

private theorem stopsShort_of_reject
    (rejects : ∃ defect, strict.move state byte rest.head? = .reject defect ∧
      defect.kind = .strayClose)
    (lower : ∃ after, (lenient.move state byte rest.head?).next? = some after ∧
      depth after < 0) : StopsShort strict lenient depth (byte :: rest) state := by
  rcases rejects with ⟨defect, rejects, stray⟩
  rcases lower with ⟨after, leads, negative⟩
  have trace : strict.trace (byte :: rest) state = { ending := .rejected defect } := by
    rw [Scanner.trace, rejects]
  refine ⟨⟨defect, ?_, stray⟩, ?_, after, mem_states_of_next? leads, negative⟩
  · rw [trace]
  · rw [trace]
    exact List.nil_prefix

private theorem goesAlong_of_states {others : List State} (sound : 0 ≤ depth state)
    (trace : strict.trace rest state = lenient.trace rest state)
    (visits : lenient.states rest state = state :: others)
    (above : ∀ visited ∈ others, 0 ≤ depth visited) :
    GoesAlong strict lenient depth rest state := by
  apply GoesAlong.mk trace
  rw [visits]
  exact List.forall_mem_cons.mpr ⟨sound, above⟩

private theorem goesAlong_or_stopsShort_of_later {chunks : List Bytes} (sound : 0 ≤ depth state)
    (strictTrace : strict.trace rest state = (strict.trace later next).after chunks)
    (lenientTrace : lenient.trace rest state = (lenient.trace later next).after chunks)
    (visits : lenient.states rest state = state :: lenient.states later next)
    (tail : GoesAlong strict lenient depth later next ∨
      StopsShort strict lenient depth later next) :
    GoesAlong strict lenient depth rest state ∨ StopsShort strict lenient depth rest state := by
  rcases tail with along | short
  · apply Or.inl
    apply goesAlong_of_states sound _ visits along.above
    rw [strictTrace, lenientTrace, along.trace]
  · rcases short.rejected with ⟨defect, rejected, stray⟩
    rcases short.below with ⟨visited, member, negative⟩
    refine .inr ⟨⟨defect, ?_, stray⟩, ?_, visited, ?_, negative⟩
    · rw [strictTrace]
      exact rejected
    · rw [strictTrace, lenientTrace]
      exact (List.prefix_append_right_inj chunks).mpr short.chunks
    · rw [visits]
      exact List.mem_cons_of_mem _ member

/-- A walk is cut short where the lenient one comes to a negative depth, and is
the same walk if it never does. -/
theorem Cuts.trace (cuts : Cuts strict lenient depth) (rest : Bytes) (state : State)
    (sound : 0 ≤ depth state) :
    GoesAlong strict lenient depth rest state ∨ StopsShort strict lenient depth rest state := by
  match rest with
  | [] => exact .inl (goesAlong_of_states sound rfl rfl (List.forall_mem_nil _))
  | byte :: rest =>
      rcases cuts.moves state byte rest.head? sound with ⟨same, above⟩ | ⟨rejects, lower⟩
      · cases move : lenient.move state byte rest.head? with
        | one chunks next =>
            rw [move] at same above
            have strictTrace : strict.trace (byte :: rest) state =
                (strict.trace rest next).after chunks := by rw [Scanner.trace, same]
            have lenientTrace : lenient.trace (byte :: rest) state =
                (lenient.trace rest next).after chunks := by rw [Scanner.trace, move]
            have visits : lenient.states (byte :: rest) state =
                state :: lenient.states rest next := by rw [states, move]
            exact goesAlong_or_stopsShort_of_later sound strictTrace lenientTrace visits
              (cuts.trace rest next (above next rfl))
        | two chunks next =>
            rw [move] at same above
            match rest with
            | [] =>
                have visits : lenient.states [byte] state = [state, next] := by
                  rw [states, move]
                apply Or.inl
                apply goesAlong_of_states sound _ visits
                · exact List.forall_mem_singleton.mpr (above next rfl)
                · rw [Scanner.trace, Scanner.trace, same, move]
            | skipped :: later =>
                have strictTrace : strict.trace (byte :: skipped :: later) state =
                    (strict.trace later next).after chunks := by rw [Scanner.trace, same]
                have lenientTrace : lenient.trace (byte :: skipped :: later) state =
                    (lenient.trace later next).after chunks := by rw [Scanner.trace, move]
                have visits : lenient.states (byte :: skipped :: later) state =
                    state :: lenient.states later next := by rw [states, move]
                exact goesAlong_or_stopsShort_of_later sound strictTrace lenientTrace visits
                  (cuts.trace later next (above next rfl))
        | stop chunks last =>
            rw [move] at same above
            have visits : lenient.states (byte :: rest) state = [state, last] := by
              rw [states, move]
            apply Or.inl
            apply goesAlong_of_states sound _ visits
            · exact List.forall_mem_singleton.mpr (above last rfl)
            · rw [Scanner.trace, Scanner.trace, same, move]
        | reject defect =>
            rw [move] at same
            have visits : lenient.states (byte :: rest) state = [state] := by rw [states, move]
            apply Or.inl
            apply goesAlong_of_states sound _ visits (List.forall_mem_nil _)
            rw [Scanner.trace, Scanner.trace, same, move]
      · exact .inr (stopsShort_of_reject rejects lower)
termination_by rest.length

end Cuts

end Scanner

/-! ## Outcomes in memory -/

/-- What a run leaves in memory, next to what a more lenient run leaves there. -/
structure CutsShort (strict lenient : Except Fault α × Bytes) : Prop where
  succeeds : ∃ value, lenient.1 = .ok value
  agrees : ∀ value, strict.1 = .ok value → strict = lenient
  output : strict.2 <+: lenient.2

/-- A fault other than a stray brace is found when everything is put. -/
def EndsWhole (strict lenient : Except Fault α × Bytes) : Prop :=
  ∀ fault, strict.1 = .error fault → fault.kind ≠ .strayClose → strict.2 = lenient.2

theorem CutsShort.refl {value : α} {output : Bytes} :
    CutsShort (.ok value, output) (.ok value, output) where
  succeeds := ⟨value, rfl⟩
  agrees _ _ := rfl
  output := List.prefix_rfl

theorem CutsShort.of_fault {value : α} {fault : Fault} {output whole : Bytes}
    (part : output <+: whole) : CutsShort (.error fault, output) (.ok value, whole) where
  succeeds := ⟨value, rfl⟩
  agrees _ ended := by cases ended
  output := part

namespace Scanner

/-- The depth is negative after some part of the text. -/
def Dips (scanner : Scanner State) (depth : State → Int) (source : Bytes) : Prop :=
  ∃ visited ∈ scanner.states source scanner.initial, depth visited < 0

section Outcome

variable {strict lenient : Scanner State} {depth : State → Int} {source : Bytes} {last : State}

theorem outcome_of_ok (ok : lenient.verdict source = .ok last) (value : Nat → State → α) :
    lenient.outcome source value =
      let output := (lenient.trace source lenient.initial).output
      (.ok (value output.length last), output) := by
  rw [outcome, result, ok]

theorem StopsShort.outcome_eq (cuts : Cuts strict lenient depth)
    (short : StopsShort strict lenient depth source lenient.initial) (value : Nat → State → α) :
    ∃ fault output, strict.outcome source value = (.error fault, output) ∧
      fault.kind = .strayClose ∧ output <+: (lenient.outcome source value).2 := by
  rcases short.rejected with ⟨defect, rejected, stray⟩
  rcases short.chunks with ⟨others, whole⟩
  rw [← cuts.initial] at rejected
  refine ⟨defect.locate source, (strict.trace source strict.initial).output, ?_, stray,
    others.flatten, ?_⟩
  · rw [outcome, result, verdict_of_rejected rejected]
  · rw [cuts.initial]
    exact List.flatten_append.symm.trans (congrArg List.flatten whole)

theorem GoesAlong.outcome_eq (cuts : Cuts strict lenient depth) (tolerant : lenient.Tolerant)
    (along : GoesAlong strict lenient depth source lenient.initial)
    (ok : lenient.verdict source = .ok last) (value : Nat → State → α) :
    strict.outcome source value =
      match strict.objection last with
      | some defect => (.error (defect.locate source), (lenient.outcome source value).2)
      | none => lenient.outcome source value := by
  rcases tolerant.trace source lenient.initial with ⟨reached, unread, finished⟩
  have same : reached = last := by
    rw [verdict_of_finished finished, tolerant.ends] at ok
    exact Except.ok.inj ok
  have trace : strict.trace source strict.initial = lenient.trace source lenient.initial := by
    rw [cuts.initial, along.trace]
  rw [← trace, same] at finished
  rw [outcome_of_ok ok, outcome, result, verdict_of_finished finished, trace]
  cases strict.objection last <;> rfl

theorem Cuts.cutsShort (cuts : Cuts strict lenient depth) (tolerant : lenient.Tolerant)
    (source : Bytes) (value : Nat → State → α) (event : α → Event) :
    let strictly := Outlet.inMemory (strict.summarize · source value event)
    let leniently := Outlet.inMemory (lenient.summarize · source value event)
    CutsShort strictly leniently ∧ EndsWhole strictly leniently := by
  rw [inMemory_summarize, inMemory_summarize]
  rcases tolerant.verdict source with ⟨last, ok⟩
  rcases cuts.trace source lenient.initial cuts.sound with along | short
  · rw [along.outcome_eq cuts tolerant ok, outcome_of_ok ok]
    cases strict.objection last with
    | some defect => exact ⟨.of_fault List.prefix_rfl, fun _ _ _ => rfl⟩
    | none => exact ⟨.refl, fun _ _ _ => rfl⟩
  · rcases short.outcome_eq cuts value with ⟨fault, output, failed, stray, part⟩
    rw [outcome_of_ok ok] at part ⊢
    rw [failed]
    apply And.intro (.of_fault part)
    intro found same notStray
    cases same
    exact absurd stray notStray

theorem Cuts.fails_iff (cuts : Cuts strict lenient depth) (tolerant : lenient.Tolerant)
    (ok : lenient.verdict source = .ok last) (value : Nat → State → α) (event : α → Event) :
    (∃ fault, (Outlet.inMemory (strict.summarize · source value event)).1 = .error fault) ↔
      lenient.Dips depth source ∨ (strict.objection last).isSome := by
  rw [inMemory_summarize]
  rcases cuts.trace source lenient.initial cuts.sound with along | short
  · have clear : ¬lenient.Dips depth source := by
      rintro ⟨visited, member, negative⟩
      exact Int.not_lt.mpr (along.above visited member) negative
    rw [along.outcome_eq cuts tolerant ok, outcome_of_ok ok]
    cases strict.objection last <;> simp [clear]
  · rcases short.outcome_eq cuts value with ⟨fault, output, failed, -, -⟩
    rw [failed]
    exact iff_of_true ⟨fault, rfl⟩ (.inl short.below)

end Outcome

end Scanner

/-! ## The passes -/

theorem Cursor.depth_read_of_strays {cursor : Cursor} {byte : UInt8}
    (stray : cursor.strays byte = true) : (cursor.read byte).nesting.depth < 0 := by
  rw [Cursor.strays, Bool.and_eq_true, decide_eq_true_eq, decide_eq_true_eq] at stray
  rw [nesting_read, Nesting.read_of_closing stray.1]
  exact Int.sub_one_lt_of_le stray.2

theorem Cursor.depth_read_of_not_strays {cursor : Cursor} {byte : UInt8}
    (sound : 0 ≤ cursor.nesting.depth) (kept : cursor.strays byte = false) :
    0 ≤ (cursor.read byte).nesting.depth := by
  rw [nesting_read]
  cases role : cursor.nesting.role byte with
  | opening =>
      rw [Nesting.read_of_opening role]
      exact Int.le_add_one sound
  | closing =>
      have positive : 0 < cursor.nesting.depth := by simpa [strays, role] using kept
      rw [Nesting.read_of_closing role]
      exact Int.le_sub_one_of_lt positive
  | plain =>
      rw [Nesting.read_of_plain role]
      exact sound

theorem Move.cuts_of_strays {depth : State → Int} {cursor : Cursor} {byte : UInt8}
    {strict lenient : Move State} (sound : 0 ≤ cursor.nesting.depth)
    (rejects : strict = if cursor.strays byte then .reject cursor.strayClose else lenient)
    (leads : ∃ after, lenient.next? = some after ∧
      depth after = (cursor.read byte).nesting.depth) : strict.Cuts lenient depth := by
  rcases leads with ⟨after, leads, reads⟩
  cases stray : cursor.strays byte with
  | false =>
      rw [stray] at rejects
      apply Or.inl
      apply And.intro rejects
      intro other same
      cases leads.symm.trans same
      rw [reads]
      exact Cursor.depth_read_of_not_strays sound stray
  | true =>
      rw [stray] at rejects
      refine .inr ⟨⟨cursor.strayClose, rejects, rfl⟩, after, leads, ?_⟩
      rw [reads]
      exact Cursor.depth_read_of_strays stray

private theorem exists_ok_iff {ε : Type} {found : Except ε α} {value : α} (ok : found = .ok value)
    {property : α → Prop} :
    (∃ other, found = .ok other ∧ property other) ↔ property value := by
  simp [ok]

section Passes

variable (topLevelMarker : Bool)

theorem Hollow.cuts :
    Scanner.Cuts (Hollow.scanner { strict := true, topLevelMarker })
      (Hollow.scanner { topLevelMarker }) (·.nesting.depth) where
  initial := rfl
  sound := Int.le_refl 0
  moves _ _ _ sound := Move.cuts_of_strays sound rfl ⟨_, rfl, rfl⟩

theorem Declarations.cuts :
    Scanner.Cuts (Declarations.scanner { strict := true, topLevelMarker })
      (Declarations.scanner { topLevelMarker }) (·.cursor.nesting.depth) where
  initial := rfl
  sound := Int.le_refl 0
  moves position byte next sound := by
    apply Move.cuts_of_strays sound rfl
    split <;> exact ⟨_, rfl, rfl⟩

theorem Rules.cuts :
    Scanner.Cuts (Rules.scanner { strict := true, topLevelMarker })
      (Rules.scanner { topLevelMarker }) (·.cursor.nesting.depth) where
  initial := rfl
  sound := Int.le_refl 0
  moves position byte next sound := by
    cases inside : position.comment.isSome with
    | true =>
        simp only [scanner, inside, if_true]
        apply Or.inl
        apply And.intro rfl
        intro after leads
        split at leads <;> cases leads <;> exact sound
    | false =>
        apply Move.cuts_of_strays sound
        · simp only [scanner, inside, Bool.false_eq_true, if_false, Bool.true_and,
            Bool.false_and]
          rfl
        · simp only [scanner, inside, Bool.false_eq_true, if_false, Bool.false_and]
          split
          case isTrue opens =>
            have plain : position.cursor.nesting.role byte = .plain := by
              simp only [Position.opensComment, Bool.and_eq_true, beq_iff_eq] at opens
              rw [opens.1.1]
              exact Nesting.role_of_not_brace _ (by decide) (by decide)
            apply Exists.intro position.openComment
            rw [Cursor.nesting_read, Nesting.read_of_plain plain]
            exact ⟨rfl, rfl⟩
          case isFalse => exact ⟨position.read byte, rfl, rfl⟩

variable (source : Bytes)

theorem Hollow.cutsShort :
    let strict := Outlet.inMemory (Hollow.run · { strict := true, topLevelMarker } source)
    let lenient := Outlet.inMemory (Hollow.run · { topLevelMarker } source)
    CutsShort strict lenient ∧ EndsWhole strict lenient :=
  (cuts topLevelMarker).cutsShort (tolerant rfl) source _ _

theorem Declarations.cutsShort :
    let strict := Outlet.inMemory (Declarations.run · { strict := true, topLevelMarker } source)
    let lenient := Outlet.inMemory (Declarations.run · { topLevelMarker } source)
    CutsShort strict lenient ∧ EndsWhole strict lenient :=
  (cuts topLevelMarker).cutsShort (tolerant rfl) source _ _

theorem Rules.cutsShort :
    let strict := Outlet.inMemory (Rules.run · { strict := true, topLevelMarker } source)
    let lenient := Outlet.inMemory (Rules.run · { topLevelMarker } source)
    CutsShort strict lenient ∧ EndsWhole strict lenient :=
  (cuts topLevelMarker).cutsShort (tolerant rfl) source _ _

theorem Tidy.cutsShort :
    CutsShort (Outlet.inMemory (Tidy.run · { strict := true, topLevelMarker } source))
      (Outlet.inMemory (Tidy.run · { topLevelMarker } source)) := by
  have declared := (Declarations.cutsShort topLevelMarker source).1
  rw [Declarations.inMemory_run, Declarations.inMemory_run] at declared
  rw [inMemory_run, inMemory_run]
  rcases scanned : Declarations.result { strict := true, topLevelMarker } source with
    fault | ⟨start?, declarations⟩
  · rcases @result_of_lenient { topLevelMarker } rfl source with ⟨tally, ok⟩
    rw [ok, result, output, scanned, List.append_nil]
    exact .of_fault (declared.output.trans (List.prefix_append _ _))
  · rcases Prod.ext_iff.mp (declared.agrees _ scanned) with ⟨sameResult, sameOutput⟩
    have scannedToo := sameResult.symm.trans scanned
    dsimp only at sameOutput scannedToo
    rw [result, result, output, output, scanned, scannedToo, sameOutput]
    cases start? with
    | none => exact .refl
    | some start =>
        have ruled := (Rules.cutsShort topLevelMarker (source.drop start)).1
        rw [Rules.inMemory_run, Rules.inMemory_run] at ruled
        rcases ruled.succeeds with ⟨tally, ok⟩
        dsimp only at ok ⊢
        rw [ok]
        cases laid : Rules.result { strict := true, topLevelMarker } (source.drop start) with
        | error fault =>
            exact .of_fault ((List.prefix_append_right_inj _).mpr ruled.output)
        | ok rules =>
            rcases Prod.mk.inj (ruled.agrees rules laid) with ⟨sameRules, sameLayout⟩
            cases laid.symm.trans (sameRules.trans ok)
            rw [sameLayout]
            exact .refl

theorem Hollow.fails_iff :
    (∃ fault, (Outlet.inMemory
        (Hollow.run · { strict := true, topLevelMarker } source)).1 = .error fault) ↔
      (scanner { topLevelMarker }).Dips (·.nesting.depth) source ∨
        ∃ tally, (Outlet.inMemory (Hollow.run · { topLevelMarker } source)).1 = .ok tally ∧
          0 < tally.finalDepth := by
  rcases (@tolerant { topLevelMarker } rfl).verdict source with ⟨last, ok⟩
  have ended : result { topLevelMarker } source =
      .ok (last.tally source (output { topLevelMarker } source).length) := by
    rw [result, Scanner.result, ok]
  have objects : ((scanner { strict := true, topLevelMarker }).objection last).isSome ↔
      0 < last.nesting.depth := by
    simp [scanner, Cursor.unclosedBlock]
  rw [inMemory_run { topLevelMarker }, exists_ok_iff ended]
  apply ((cuts topLevelMarker).fails_iff (tolerant rfl) ok _ _).trans
  rw [objects]
  rfl

theorem Rules.fails_iff :
    (∃ fault, (Outlet.inMemory
        (Rules.run · { strict := true, topLevelMarker } source)).1 = .error fault) ↔
      (scanner { topLevelMarker }).Dips (·.cursor.nesting.depth) source ∨
        (∃ tally, (Outlet.inMemory (Rules.run · { topLevelMarker } source)).1 = .ok tally ∧
          0 < tally.finalDepth) ∨
        ∃ last, (scanner { topLevelMarker }).verdict source = .ok last ∧
          last.comment.isSome := by
  rcases (@tolerant { topLevelMarker } rfl).verdict source with ⟨last, ok⟩
  have ended : result { topLevelMarker } source =
      .ok (last.cursor.tally source (output { topLevelMarker } source).length) := by
    rw [result, Scanner.result, ok]
  have objects : ((scanner { strict := true, topLevelMarker }).objection last).isSome ↔
      0 < last.cursor.nesting.depth ∨ last.comment.isSome := by
    cases inside : last.comment <;> simp [scanner, inside, Cursor.unclosedBlock]
  rw [inMemory_run { topLevelMarker }, exists_ok_iff ended, exists_ok_iff ok]
  apply ((cuts topLevelMarker).fails_iff (tolerant rfl) ok _ _).trans
  rw [objects]
  rfl

end Passes

/-- A strict run only ever cuts the lenient one short. The lenient run of a pass
ends well, and the strict run has the same result and output, or fails with a part
of the output; it is the whole of it, for a pass of one scan, unless the fault is a
stray brace. The strict run fails exactly when the depth of the lenient scan is
negative somewhere or positive at the end, or when that ends inside a comment. -/
theorem Pass.strict_cuts_lenient (topLevelMarker : Bool) (source : Bytes) :
    (∀ pass : Pass,
      CutsShort (Outlet.inMemory (pass.run · { strict := true, topLevelMarker } source))
        (Outlet.inMemory (pass.run · { topLevelMarker } source))) ∧
      (∀ pass ∈ [Pass.hollow, Pass.declarations, Pass.rules],
        EndsWhole (Outlet.inMemory (pass.run · { strict := true, topLevelMarker } source))
          (Outlet.inMemory (pass.run · { topLevelMarker } source))) ∧
      ((∃ fault, (Outlet.inMemory
          (Hollow.run · { strict := true, topLevelMarker } source)).1 = .error fault) ↔
        (Hollow.scanner { topLevelMarker }).Dips (·.nesting.depth) source ∨
          ∃ tally, (Outlet.inMemory (Hollow.run · { topLevelMarker } source)).1 = .ok tally ∧
            0 < tally.finalDepth) ∧
      ((∃ fault, (Outlet.inMemory
          (Rules.run · { strict := true, topLevelMarker } source)).1 = .error fault) ↔
        (Rules.scanner { topLevelMarker }).Dips (·.cursor.nesting.depth) source ∨
          (∃ tally, (Outlet.inMemory (Rules.run · { topLevelMarker } source)).1 = .ok tally ∧
            0 < tally.finalDepth) ∨
          ∃ last, (Rules.scanner { topLevelMarker }).verdict source = .ok last ∧
            last.comment.isSome) := by
  have hollow := Hollow.cutsShort topLevelMarker source
  have declarations := Declarations.cutsShort topLevelMarker source
  have rules := Rules.cutsShort topLevelMarker source
  have tidy := Tidy.cutsShort topLevelMarker source
  refine ⟨?_, ?_, Hollow.fails_iff topLevelMarker source, Rules.fails_iff topLevelMarker source⟩
  · intro pass
    cases pass with
    | hollow => exact hollow.1
    | declarations => exact declarations.1
    | rules => exact rules.1
    | tidy => exact tidy
    | job mode =>
        cases mode with
        | hollow => exact hollow.1
        | tidy => exact tidy
  · rw [List.forall_mem_cons, List.forall_mem_cons, List.forall_mem_singleton]
    exact ⟨hollow.2, declarations.2, rules.2⟩

/-- A comment that is never closed is found when all of the rules are put, and a
block that is never closed is found when all of the text is. -/
theorem Pass.strict_cuts_lenient_at_end :
    let rules := Bytes.ofText "a: b /* \x7d"
    let text := Bytes.ofText "a \x7b b\n"
    let strict := { strict := true : Settings }
    (Outlet.inMemory (Rules.run · strict rules)).2 =
        (Outlet.inMemory (Rules.run · {} rules)).2 ∧
      (Outlet.inMemory (Hollow.run · strict text)).2 =
        (Outlet.inMemory (Hollow.run · {} text)).2 := by
  intro rules text strict
  have ends := (Pass.strict_cuts_lenient false rules).2.1 .rules (by decide)
  have endsToo := (Pass.strict_cuts_lenient false text).2.1 .hollow (by decide)
  exact ⟨ends ⟨.unclosedComment, ⟨5, 1, 6⟩⟩ rfl (by decide),
    endsToo ⟨.unclosedBlock 1, ⟨2, 1, 3⟩⟩ rfl (by decide)⟩

end GrammarTidy
