import GrammarTidy.Proofs.Tallies

/-! Where the declarations of a file end, and what comes of them, without a scan.
They end with the first marker, and nothing behind it is looked at. -/

namespace GrammarTidy.Declarations

open Byte

/-! ## The first marker -/

/-- Two percent signs side by side. If they have to stand at top level, as many
blocks are closed before them as are opened, and no quote stands before them; of the
second one nothing more is asked. -/
structure IsMarker (topLevelMarker : Bool) (text : Bytes) (position : Nat) : Prop where
  first : text[position]? = some percent
  second : text[position + 1]? = some percent
  topLevel : topLevelMarker = true →
    depthBefore (roleAt text) position = 0 ∧ quotedAt text position = false

def markerEnds (topLevelMarker : Bool) (text : Bytes) : Set Nat :=
  {stop | ∃ position, IsMarker topLevelMarker text position ∧ position + 2 = stop}

variable {topLevelMarker : Bool} {text : Bytes}

theorem markerAt_iff {position : Nat} :
    markerAt topLevelMarker text position = true ↔ IsMarker topLevelMarker text position := by
  simp only [markerAt, markerHalfAt, Bool.and_eq_true, beq_iff_eq, Bool.or_eq_true,
    Bool.not_eq_true', decide_eq_true_eq]
  constructor
  · rintro ⟨⟨first, outside⟩, second, -⟩
    refine ⟨first, second, fun topLevel => ?_⟩
    rw [topLevel] at outside
    exact (outside.resolve_left Bool.noConfusion).symm
  · rintro ⟨first, second, topLevel⟩
    cases topLevelMarker with
    | false => exact ⟨⟨first, .inl rfl⟩, second, .inl rfl⟩
    | true =>
        rcases topLevel rfl with ⟨outside, unquoted⟩
        have level : depthBefore (roleAt text) (position + 1) = 0 := by
          rw [depthBefore_succ, roleAt_percent first]
          exact outside
        have live : quotedAt text (position + 1) = false := quotedAt_succ first
        exact ⟨⟨first, .inr ⟨unquoted, outside⟩⟩, second, .inr ⟨live, level⟩⟩

theorem IsMarker.lt_length {position : Nat} (marker : IsMarker topLevelMarker text position) :
    position < text.length :=
  (List.getElem?_eq_some_iff.mp marker.first).1

theorem markerEnd?_eq_some_iff {stop : Nat} :
    markerEnd? topLevelMarker text = some stop ↔
      IsLeast (markerEnds topLevelMarker text) stop := by
  rw [markerEnd?, Option.map_eq_some_iff]
  constructor
  · rintro ⟨position, found, rfl⟩
    rcases firstFrom_eq_some_iff.mp found with ⟨marks, -, -, earlier⟩
    refine ⟨⟨position, markerAt_iff.mp marks, rfl⟩, ?_⟩
    rintro _ ⟨other, marker, rfl⟩
    apply Nat.add_le_add_right
    apply Nat.le_of_not_lt
    intro before
    cases (earlier other (Nat.zero_le _) before).symm.trans (markerAt_iff.mpr marker)
  · rintro ⟨⟨position, marker, rfl⟩, least⟩
    refine ⟨position, firstFrom_eq_some_iff.mpr ?_, rfl⟩
    refine ⟨markerAt_iff.mpr marker, Nat.zero_le _, marker.lt_length, fun earlier _ before => ?_⟩
    apply Bool.eq_false_iff.mpr
    intro marks
    have notLess := least ⟨earlier, markerAt_iff.mp marks, rfl⟩
    omega

theorem markerEnd?_eq_none_iff :
    markerEnd? topLevelMarker text = none ↔ ∀ stop, stop ∉ markerEnds topLevelMarker text := by
  rw [markerEnd?, Option.map_eq_none_iff, firstFrom_eq_none_iff]
  constructor
  · rintro absent _ ⟨position, marker, rfl⟩
    cases (absent position (Nat.zero_le _) marker.lt_length).symm.trans (markerAt_iff.mpr marker)
  · intro absent position _ _
    apply Bool.eq_false_iff.mpr
    intro marks
    exact absent _ ⟨position, markerAt_iff.mp marks, rfl⟩

/-! ## What is kept -/

def outerByte? (text : Bytes) (position : Nat) : Option UInt8 :=
  if depthBefore (roleAt text) position = 0 ∧ roleAt text position = .plain then text[position]?
  else none

/-- The bytes before a position that stand outside all blocks and are no live
braces. -/
def outerBytes (text : Bytes) (stop : Nat) : Bytes :=
  (List.range stop).filterMap (outerByte? text)

private theorem outerBytes_succ (text : Bytes) (position : Nat) :
    outerBytes text (position + 1) =
      outerBytes text position ++ (outerByte? text position).toList := by
  rw [outerBytes, List.range_succ, List.filterMap_append]
  cases byte : outerByte? text position <;> simp [outerBytes, byte]

variable {settings : Settings} {rest unread : Bytes} {last : Position}

private theorem kept_eq {position : Position} {byte : UInt8}
    (follows : position.cursor.Follows text (byte :: rest)) :
    kept position.cursor.nesting byte = (outerByte? text position.cursor.offset).toList := by
  rcases drop_eq_cons follows.rest with ⟨here, -, -⟩
  rw [outerByte?, ← follows.tracks.depth, follows.roleAt_eq, here, kept, keeps]
  by_cases outer : position.cursor.nesting.depth = 0 ∧ position.cursor.nesting.role byte = .plain
  · simp [outer]
  · rw [if_neg outer, if_neg (by simpa [and_comm] using outer)]
    rfl

def breakAfter (marker : Option Nat) : Bytes :=
  if marker.isSome then [newline, newline] else []

/-- What was kept of the bytes before a position and what is put from there on are
together what is kept of all that is read. -/
theorem output_of_finished (lenient : settings.strict = false) (position : Position)
    (follows : position.cursor.Follows text rest) (unmarked : position.rulesStart = none)
    (finished : ((scanner settings).trace rest position).ending = .finished last unread) :
    outerBytes text position.cursor.offset ++ ((scanner settings).trace rest position).output =
      outerBytes text last.cursor.offset ++ breakAfter last.rulesStart := by
  induction rest generalizing position with
  | nil =>
      cases finished
      rw [unmarked]
      rfl
  | cons byte rest induction =>
      have outer := outerBytes_succ text position.cursor.offset
      rw [← kept_eq follows] at outer
      rw [ending_cons_of_lenient lenient] at finished
      rw [output_cons lenient, ← List.append_assoc, ← outer, ← Cursor.offset_read _ byte]
      cases ends : position.endsMarker settings byte with
      | true =>
          rw [ends] at finished
          cases finished
          rfl
      | false =>
          rw [ends] at finished
          exact induction (position.read settings byte) follows.read unmarked finished

private theorem trace_before_marker (position : Position) (unmarked : position.rulesStart = none)
    (finished : ((scanner settings).trace rest position).ending = .finished last unread)
    (marked : last.rulesStart.isSome) :
    ∃ front, rest = front ++ unread ∧ ∀ later,
      (scanner settings).trace (front ++ later) position =
        { chunks := ((scanner settings).trace rest position).chunks
          ending := .finished last later } := by
  induction rest generalizing position with
  | nil =>
      cases finished
      rw [unmarked] at marked
      cases marked
  | cons byte rest induction =>
      rw [trace_cons] at finished ⊢
      cases rejects : settings.strict && position.cursor.strays byte with
      | true =>
          rw [rejects] at finished
          cases finished
      | false =>
          rw [rejects] at finished
          cases ends : position.endsMarker settings byte with
          | true =>
              rw [ends] at finished
              cases finished
              refine ⟨[byte], rfl, fun later => ?_⟩
              rw [List.singleton_append, trace_cons, rejects, ends]
              rfl
          | false =>
              rw [ends] at finished
              rcases induction (position.read settings byte) unmarked finished with
                ⟨front, split, same⟩
              refine ⟨byte :: front, congrArg (byte :: ·) split, fun later => ?_⟩
              rw [List.cons_append, trace_cons, rejects, ends, same later]
              rfl

/-! ## The declarations of a file -/

section Source

variable {source : Bytes}
  (finished : ((scanner settings).trace source {}).ending = .finished last unread)

include finished

private theorem inMemory_of_marker (lenient : settings.strict = false) {stop : Nat}
    (marked : last.rulesStart = some stop) (later : Bytes) :
    Outlet.inMemory (Declarations.run · settings (source.take stop ++ later)) =
      Outlet.inMemory (Declarations.run · settings source) := by
  rcases trace_before_marker {} rfl finished (by rw [marked]; rfl) with ⟨front, split, same⟩
  have ends := endsBefore_of_finished finished lenient
  have front_eq : source.take stop = front := by
    have behind : source.drop stop = unread := by
      rcases ends.marker with here | ⟨absent, -⟩
      · cases here.symm.trans marked
        exact ends.follows.rest
      · cases absent.symm.trans marked
    apply List.append_cancel_right
    calc source.take stop ++ unread
      _ = source.take stop ++ source.drop stop := by rw [behind]
      _ = source := List.take_append_drop stop source
      _ = front ++ unread := split
  have again := same later
  have outputs : output settings (front ++ later) = output settings source := by
    rw [output, again]
    rfl
  have finishedAgain : ((scanner settings).trace (front ++ later) {}).ending =
      .finished last later := by rw [again]
  rw [front_eq, inMemory_run, inMemory_run, result_of_finished finished lenient,
    result_of_finished finishedAgain lenient, outputs]
  simp [Position.tally, Cursor.tally, marked]

end Source

/-- The declarations end at the first marker of the text, or with the text if it has
none. What is put is what lies outside all blocks before that, and an empty line
behind the marker. The text behind the marker is not looked at; tidying puts its
layout next. -/
theorem run_reads_to_marker (topLevelMarker : Bool) (source : Bytes) :
    let settings : Settings := { topLevelMarker }
    ∃ start tally output,
      Outlet.inMemory (Declarations.run · settings source) = (.ok (start, tally), output) ∧
      (∀ stop, start = some stop ↔ IsLeast (markerEnds topLevelMarker source) stop) ∧
      (start = none ↔ ∀ stop, stop ∉ markerEnds topLevelMarker source) ∧
      output = outerBytes source (start.getD source.length) ++ breakAfter start ∧
      (∀ stop, start = some stop → ∀ later,
        Outlet.inMemory (Declarations.run · settings (source.take stop ++ later)) =
          (.ok (start, tally), output)) ∧
      (Outlet.inMemory (Tidy.run · settings source)).2 = output ++
        match start with
        | none => []
        | some stop => (Outlet.inMemory (Rules.run · settings (source.drop stop))).2 := by
  intro settings
  have lenient : settings.strict = false := rfl
  rcases (tolerant lenient).trace source {} with ⟨last, unread, finished⟩
  have ran := inMemory_run settings source
  rw [result_of_finished finished lenient] at ran
  have completes : last.Completes settings.topLevelMarker source :=
    completes_of_verdict (verdict_of_finished finished lenient)
  refine ⟨last.rulesStart, _, _, ran, ?_, ?_, ?_, ?_, ?_⟩
  · intro stop
    rw [completes.marker]
    exact markerEnd?_eq_some_iff
  · rw [completes.marker]
    exact markerEnd?_eq_none_iff
  · have put := output_of_finished lenient {} (Cursor.follows_initial source) rfl finished
    rw [completes.offset, ← completes.marker] at put
    exact put
  · intro stop marked later
    rw [inMemory_of_marker finished lenient marked later, ran]
  · rw [Tidy.inMemory_run, Tidy.output, result_of_finished finished lenient]
    cases last.rulesStart with
    | none => rfl
    | some stop =>
        dsimp only
        rw [Rules.inMemory_run]

end GrammarTidy.Declarations
