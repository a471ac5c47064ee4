import GrammarTidy.Proofs.DeclarationsReading
import GrammarTidy.Proofs.Diagnosis
import GrammarTidy.Proofs.Stability

/-! What becomes of a text that is tidied more than once. The declarations come
out without a live brace, so they are copied from then on; the rules settle with
their second layout. -/

namespace GrammarTidy

open Byte

namespace Declarations

/-! ## Declarations without blocks -/

/-- No byte is a live brace, where `quoted` says whether the first one is
quoted. -/
def Braceless : Bool → Bytes → Prop
  | _, [] => True
  | quoted, byte :: rest => { quoted : Nesting }.role byte = .plain ∧ Braceless (byte == quote) rest

private theorem Braceless.of_append {quoted : Bool} {text rest : Bytes}
    (braceless : Braceless quoted (text ++ rest)) : Braceless quoted text := by
  induction text generalizing quoted with
  | nil => trivial
  | cons byte text induction => exact ⟨braceless.1, induction braceless.2⟩

private theorem role_eq_plain_of_quoted {nesting : Nesting} {quoted : Bool} {byte : UInt8}
    (plain : nesting.role byte = .plain) (carried : nesting.quoted = true → quoted = true) :
    { quoted : Nesting }.role byte = .plain := by
  cases behind : nesting.quoted with
  | true => exact Nesting.role_of_quoted (carried behind) byte
  | false =>
      cases quoted with
      | true => exact Nesting.role_of_quoted rfl byte
      | false =>
          rw [Nesting.role, behind] at plain
          exact plain

/-- All that is put is without live braces. A brace that is put was quoted, and
its quote was put right before it. -/
theorem braceless_output {settings : Settings} (lenient : settings.strict = false) :
    ∀ (rest : Bytes) (position : Position) (quoted : Bool),
      (position.cursor.nesting.depth = 0 → position.cursor.nesting.quoted = true →
        quoted = true) →
      Braceless quoted ((scanner settings).trace rest position).output := by
  intro rest
  induction rest with
  | nil =>
      intro position quoted carried
      trivial
  | cons byte rest induction =>
      intro position quoted carried
      have tail : ∀ quoted, ((position.cursor.nesting.read byte).depth = 0 →
          (byte == quote) = true → quoted = true) →
          Braceless quoted (if position.endsMarker settings byte then markerBreak
            else ((scanner settings).trace rest (position.read settings byte)).output) := by
        intro quoted carriedOn
        split
        · exact ⟨Nesting.role_of_space _ rfl, Nesting.role_of_space _ rfl, trivial⟩
        · apply induction
          rw [Position.cursor_read, Cursor.nesting_read, Nesting.quoted_read]
          exact carriedOn
      rw [output_cons lenient, kept]
      cases keep : keeps position.cursor.nesting byte with
      | true =>
          simp only [keeps, Bool.and_eq_true, decide_eq_true_eq] at keep
          exact ⟨role_eq_plain_of_quoted keep.1 (carried keep.2), tail _ fun _ live => live⟩
      | false =>
          apply tail
          intro outermost isQuote
          rw [beq_iff_eq] at isQuote
          have plain : position.cursor.nesting.role byte = .plain := by
            rw [isQuote]
            exact Nesting.role_of_not_brace _ (by decide) (by decide)
          rw [Nesting.read_of_plain plain] at outermost
          have depth : position.cursor.nesting.depth = 0 := outermost
          simp [keeps, plain, depth] at keep

/-! ## Declarations scanned again -/

structure Position.Idle (position : Position) : Prop where
  depth : position.cursor.nesting.depth = 0
  unmarked : position.rulesStart = none

variable {position : Position} {byte : UInt8} {text rest : Bytes}

theorem Position.Idle.read (idle : position.Idle)
    (plain : position.cursor.nesting.role byte = .plain) :
    (position.read {} byte).Idle where
  depth := by
    rw [Position.cursor_read, Cursor.nesting_read, Nesting.read_of_plain plain]
    exact idle.depth
  unmarked := idle.unmarked

theorem Braceless.read (braceless : Braceless position.cursor.nesting.quoted (byte :: text)) :
    Braceless (position.read {} byte).cursor.nesting.quoted text := by
  rw [Position.cursor_read, Cursor.nesting_read, Nesting.quoted_read]
  exact braceless.2

theorem Position.Idle.foldl_read (idle : position.Idle)
    (braceless : Braceless position.cursor.nesting.quoted text) :
    (text.foldl (·.read {}) position).Idle := by
  induction text generalizing position with
  | nil => exact idle
  | cons byte text induction => exact induction (idle.read braceless.1) braceless.read

private theorem isMarkerHalf_default (nesting : Nesting) (byte : UInt8) :
    isMarkerHalf {} nesting byte = (byte == percent) := by
  simp [isMarkerHalf]

theorem trace_copy (idle : position.Idle)
    (braceless : Braceless position.cursor.nesting.quoted text)
    (unmarked : ¬[percent, percent] <:+: text)
    (apart : position.afterPercent = true → text.head? ≠ some percent) :
    (scanner {}).trace (text ++ rest) position =
      ((scanner {}).trace rest (text.foldl (·.read {}) position)).after (text.map ([·])) := by
  induction text generalizing position with
  | nil => rfl
  | cons byte text induction =>
      have plain : position.cursor.nesting.role byte = .plain := braceless.1
      have keep : keeps position.cursor.nesting byte = true := by
        simp [keeps, plain, idle.depth]
      have going : position.endsMarker {} byte = false := by
        rw [Position.endsMarker, isMarkerHalf_default, Bool.eq_false_iff]
        intro ends
        rw [Bool.and_eq_true, beq_iff_eq] at ends
        exact apart ends.2 (congrArg some ends.1)
      have apartOn : (position.read {} byte).afterPercent = true →
          text.head? ≠ some percent := by
        intro isPercent isPercentToo
        rw [Position.read, isMarkerHalf_default, beq_iff_eq] at isPercent
        rcases List.head?_eq_some_iff.mp isPercentToo with ⟨later, rfl⟩
        rw [isPercent] at unmarked
        exact unmarked ⟨[], later, rfl⟩
      have copied := induction (idle.read plain) braceless.read
        (fun inside => unmarked (List.infix_cons inside)) apartOn
      rw [List.cons_append, trace_cons, keep, going]
      simp only [Bool.false_and, Bool.false_eq_true, if_false, if_true]
      rw [copied, Scanner.Trace.after_after]
      rfl

theorem idle_initial : ({} : Position).Idle := ⟨rfl, rfl⟩

private theorem flatten_singletons (text : Bytes) : (text.map ([·])).flatten = text := by
  rw [← List.flatMap_def]
  exact List.flatMap_singleton' text

end Declarations

namespace Tidy

open Declarations

variable {text front later : Bytes}

theorem output_of_copied (braceless : Braceless false text)
    (unmarked : ¬[percent, percent] <:+: text) : output {} text = text := by
  have copied : (Declarations.scanner {}).trace text {} =
      ((Declarations.scanner {}).trace [] (text.foldl (·.read {}) {})).after
        (text.map ([·])) := by
    conv => lhs; rw [← List.append_nil text]
    exact trace_copy idle_initial braceless unmarked (fun after => by cases after)
  have finished : ((Declarations.scanner {}).trace text {}).ending =
      .finished (text.foldl (·.read {}) {}) [] := by
    rw [copied]
    rfl
  rw [tidy_output_of_finished finished rfl, (idle_initial.foldl_read braceless).unmarked,
    Declarations.output, copied]
  simp [Scanner.Trace.output, Scanner.trace, flatten_singletons]

theorem output_of_front (braceless : Braceless false (front ++ [percent]))
    (unmarked : ¬[percent, percent] <:+: front ++ [percent]) :
    output {} (front ++ percent :: percent :: later) =
      front ++ percent :: percent :: (markerBreak ++ Rules.output {} later) := by
  let last := (front ++ [percent]).foldl (·.read {}) ({} : Declarations.Position)
  have idle : last.Idle := idle_initial.foldl_read braceless
  have keep : keeps last.cursor.nesting percent = true := by
    have plain : last.cursor.nesting.role percent = .plain :=
      Nesting.role_of_not_brace _ (by decide) (by decide)
    simp [keeps, plain, idle.depth]
  have ends : last.endsMarker {} percent = true := by
    rw [Position.endsMarker, isMarkerHalf_default]
    simp only [last, List.foldl_append, List.foldl_cons, List.foldl_nil, Position.read,
      isMarkerHalf_default]
    rfl
  have copied : (Declarations.scanner {}).trace (front ++ percent :: percent :: later) {} =
      ((Declarations.scanner {}).trace (percent :: later) last).after
        ((front ++ [percent]).map ([·])) := by
    rw [List.append_cons]
    exact trace_copy idle_initial braceless unmarked (fun after => by cases after)
  have finished : ((Declarations.scanner {}).trace (front ++ percent :: percent :: later)
      {}).ending = .finished (last.endAt {} percent) later := by
    rw [copied, Scanner.Trace.ending_after, ending_cons_of_lenient rfl, ends]
    rfl
  have put : Declarations.output {} (front ++ percent :: percent :: later) =
      front ++ percent :: percent :: markerBreak := by
    rw [Declarations.output, copied, Scanner.Trace.output_after, output_cons rfl, ends, kept,
      keep, flatten_singletons]
    simp
  rw [tidy_output_of_finished finished rfl, put]
  simp [Position.endAt]

end Tidy

private theorem Rules.exists_firm_cells {source : Bytes} (sound : ¬Fragile (output {} source)) :
    ∃ cells, LaidOut false cells ∧ Firm false cells ∧ output {} source = render cells := by
  rcases @exists_cells {} rfl {} source false Position.steady_initial
    (fun _ _ live => live) with ⟨cells, laid, put⟩
  have put : output {} source = render cells := put
  rw [fragile_iff, put, ← firm_iff laid] at sound
  exact ⟨cells, laid, sound, put⟩

private theorem Rules.output_of_markerBreak {cells : List Cell} (laid : LaidOut false cells)
    (firm : Firm false cells) :
    output {} (Declarations.markerBreak ++ render cells) = render (settle false cells) := by
  let first := ({} : Position).read newline
  have idle : first.Idle := Position.Idle.read ⟨rfl, rfl⟩ rfl
  have idleToo : (first.read newline).Idle := idle.read (Nesting.role_of_space _ rfl)
  have skipped : (scanner {}).trace (Declarations.markerBreak ++ render cells) {} =
      (scanner {}).trace (render cells) (first.read newline) :=
    (trace_space {} rfl rfl).trans (trace_space {} idle.comment rfl)
  rw [output, skipped]
  exact output_render rfl cells (first.read newline) idleToo laid firm

section Marked

variable {front rules : Bytes}

private theorem not_marked_before (first : ∀ before after,
      front ++ [percent, percent, newline, newline] ++ rules =
        before ++ [percent, percent] ++ after → front.length ≤ before.length) :
    ¬[percent, percent] <:+: front ++ [percent] := by
  rintro ⟨before, after, found⟩
  have whole : front ++ [percent, percent, newline, newline] ++ rules =
      before ++ [percent, percent] ++ (after ++ [percent, newline, newline] ++ rules) := by
    simpa using congrArg (· ++ [percent, newline, newline] ++ rules) found.symm
  have early := first before _ whole
  have length := congrArg List.length found
  simp only [List.length_append, List.length_cons, List.length_nil] at length
  omega

theorem Tidy.output_of_cells (braceless : Declarations.Braceless false (front ++ [percent]))
    (unmarked : ¬[percent, percent] <:+: front ++ [percent]) {cells : List Rules.Cell}
    (laid : Rules.LaidOut false cells) (firm : Rules.Firm false cells) :
    output {} (front ++ [percent, percent, newline, newline] ++ Rules.render cells) =
      front ++ [percent, percent, newline, newline] ++
        Rules.render (Rules.settle false cells) := by
  have read := @output_of_front front (Declarations.markerBreak ++ Rules.render cells)
    braceless unmarked
  rw [Rules.output_of_markerBreak laid firm] at read
  rw [List.append_assoc, List.append_assoc]
  exact read

end Marked

/-- A text that is tidied twice is settled. Without a marker it is settled at
once, unless blocks that vanished brought two percent signs together. With a
marker, the declarations are settled at once if no marker comes before the old
one, and the rules are laid out a second time. -/
theorem Mode.tidy_settles (source : Bytes) :
    ∃ once, Mode.tidy.apply {} source = .ok once ∧
      (rulesStart? false source = none → ¬[percent, percent] <:+: once →
        Mode.tidy.apply {} once = .ok once) ∧
      ∀ front rules, (rulesStart? false source).isSome →
        (Outlet.inMemory (Declarations.run · {} source)).2 =
          front ++ [percent, percent, newline, newline] →
        once = front ++ [percent, percent, newline, newline] ++ rules →
        (∀ before after, once = before ++ [percent, percent] ++ after →
          front.length ≤ before.length) →
        ¬Rules.Fragile rules →
        ∃ twice, twice = front ++ [percent, percent, newline, newline] ++
            Rules.layOut false rules ∧
          Mode.tidy.apply {} once = .ok twice ∧ Mode.tidy.apply {} twice = .ok twice := by
  rcases (@Declarations.tolerant {} rfl).trace source {} with ⟨last, unread, finished⟩
  have tidied := Declarations.tidy_output_of_finished finished rfl
  have marker := @rulesStart?_of_finished false source unread last finished
  have braceless : Declarations.Braceless false (Declarations.output {} source) :=
    Declarations.braceless_output rfl source {} false fun _ live => live
  refine ⟨Tidy.output {} source, tidy_apply rfl source, ?_, ?_⟩
  · intro unmarked clear
    rw [marker] at unmarked
    rw [unmarked, Option.isSome_none, if_neg Bool.false_ne_true, List.append_nil] at tidied
    rw [tidied] at clear ⊢
    rw [tidy_apply rfl, Tidy.output_of_copied braceless clear]
  · intro front rules marked declared once first sound
    rw [Declarations.inMemory_run] at declared
    dsimp only at declared
    have laidOut : rules = Rules.output {} unread := by
      rw [marker] at marked
      rw [marked, if_pos rfl, declared] at tidied
      exact List.append_cancel_left (once.symm.trans tidied)
    rw [laidOut] at sound
    rcases Rules.exists_firm_cells sound with ⟨cells, laid, firm, put⟩
    rw [put] at laidOut
    have copied : Declarations.Braceless false (front ++ [percent]) := by
      rw [declared, List.append_cons] at braceless
      exact braceless.of_append
    rw [once] at first ⊢
    have unmarked := not_marked_before first
    have still : false = true → false = false := fun _ => rfl
    refine ⟨_, rfl, ?_, ?_⟩
    · rw [tidy_apply rfl, laidOut, Tidy.output_of_cells copied unmarked laid firm,
        Rules.layOut_render false laid firm]
    · rw [tidy_apply rfl, laidOut, Rules.layOut_render false laid firm,
        Tidy.output_of_cells copied unmarked (Rules.laidOut_settle still laid)
          (Rules.firm_settle still firm), Rules.settle_settle]

/-- A token behind a colon gets its second space from the second run, and nothing
changes after that. -/
theorem Mode.tidy_settles_behind_colon :
    let source := Bytes.ofText "%t \x7bx\x7d'\x7b'\n%%a:b\x7by\x7d;"
    let twice := Bytes.ofText "%t '\x7b'\n%%\n\na:\n  b;\n\n"
    ∃ once, Mode.tidy.apply {} source = .ok once ∧ once ≠ twice ∧
      Mode.tidy.apply {} once = .ok twice ∧ Mode.tidy.apply {} twice = .ok twice := by
  intro source twice
  let front := Bytes.ofText "%t '\x7b'\n"
  let rules : Bytes := [0x61, colon, newline, space, 0x62, semicolon, newline, newline]
  let once := front ++ [percent, percent, newline, newline] ++ rules
  rcases Mode.tidy_settles source with ⟨_, tidied, -, settles⟩
  have sound : ¬Rules.Fragile rules := by
    rw [Rules.fragile_iff]
    simp +decide [rules, Rules.FragileFrom, Rules.FragileAt]
  have early : ∀ position < front.length, ¬[percent, percent] <+: once.drop position := by
    decide
  have first : ∀ before after, once = before ++ [percent, percent] ++ after →
      front.length ≤ before.length := by
    intro before after split
    apply Nat.le_of_not_lt
    intro less
    apply early before.length less
    rw [split, List.append_assoc, List.drop_left]
    exact List.prefix_append _ _
  have run : Mode.tidy.apply {} source = .ok once := rfl
  cases tidied.symm.trans run
  rcases settles front rules rfl rfl rfl first sound with ⟨_, rfl, second, third⟩
  exact ⟨once, run, by decide, second, third⟩

end GrammarTidy
