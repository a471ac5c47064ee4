import GrammarTidy.Proofs.Comments
import GrammarTidy.Proofs.DeclarationsReading
import GrammarTidy.Proofs.Delivery
import Mathlib.Order.Bounds.Basic

/-! What the tally of a pass says, against what there is to count: the bytes that
reached the outlet, the depths of all the texts read so far, and the first marker of
the declarations. -/

namespace GrammarTidy

open Byte

/-! ## Walks -/

namespace Scanner

variable {State : Type} {scanner : Scanner State}

/-- What every move keeps holds where a walk ends: at the end of the text, or where
the scanner stopped. -/
theorem finished_of_moves (going stopped : State → Bytes → Prop)
    (moves : ∀ state byte rest, going state (byte :: rest) →
      match scanner.move state byte rest.head? with
      | .one _ next => going next rest
      | .two _ next => going next rest.tail
      | .stop _ last => stopped last rest
      | .reject _ => True)
    {rest unread : Bytes} {state last : State} (start : going state rest)
    (finished : (scanner.trace rest state).ending = .finished last unread) :
    going last [] ∨ stopped last unread := by
  fun_induction scanner.trace rest state with
  | case1 state =>
      cases finished
      exact .inl start
  | case2 state byte rest chunks next move induction =>
      have kept := moves _ _ _ start
      rw [move] at kept
      exact induction kept finished
  | case3 state byte chunks next move =>
      have kept := moves _ _ _ start
      rw [move] at kept
      cases finished
      exact .inl kept
  | case4 state byte chunks next skipped later move induction =>
      have kept := moves _ _ _ start
      rw [move] at kept
      exact induction kept finished
  | case5 state byte rest chunks last move =>
      have kept := moves _ _ _ start
      rw [move] at kept
      cases finished
      exact .inr kept
  | case6 => cases finished

theorem finished_of_verdict {source : Bytes} {last : State}
    (ok : scanner.verdict source = .ok last) :
    ∃ unread, (scanner.trace source scanner.initial).ending = .finished last unread := by
  unfold verdict at ok
  split at ok
  · cases ok
  · split at ok
    · cases ok
    · cases ok
      exact ⟨_, by assumption⟩

end Scanner

/-! ## Depths -/

def depthsUpTo (role : Nat → BraceRole) (stop : Nat) : Set Int :=
  {depth | ∃ position ≤ stop, depthBefore role position = depth}

section Depths

variable (role : Nat → BraceRole) (stop : Nat)

private theorem depthBefore_mem_depthsUpTo : depthBefore role stop ∈ depthsUpTo role stop :=
  ⟨stop, Nat.le_refl _, rfl⟩

theorem zero_mem_depthsUpTo : 0 ∈ depthsUpTo role stop :=
  ⟨0, Nat.zero_le _, rfl⟩

private theorem depthsUpTo_zero : depthsUpTo role 0 = {0} := by
  ext depth
  simp [depthsUpTo, eq_comm]

private theorem depthsUpTo_succ :
    depthsUpTo role (stop + 1) =
      insert (depthBefore role (stop + 1)) (depthsUpTo role stop) := by
  ext depth
  constructor
  · intro member
    rcases member with ⟨position, within, same⟩
    rcases Nat.le_succ_iff.mp within with earlier | rfl
    · exact .inr ⟨position, earlier, same⟩
    · exact .inl same.symm
  · intro member
    rcases member with rfl | ⟨position, earlier, same⟩
    · exact depthBefore_mem_depthsUpTo role (stop + 1)
    · exact ⟨position, Nat.le_succ_of_le earlier, same⟩

end Depths

namespace Cursor

variable {cursor : Cursor} {role : Nat → BraceRole} {byte : UInt8}

/-- A cursor knows the greatest depth up to its offset. -/
def Measures (cursor : Cursor) (role : Nat → BraceRole) : Prop :=
  IsGreatest (depthsUpTo role cursor.offset) cursor.deepest

theorem measures_initial (role : Nat → BraceRole) : ({} : Cursor).Measures role := by
  rw [Measures, depthsUpTo_zero]
  exact isGreatest_singleton

theorem Measures.extend {next : Cursor} (measures : cursor.Measures role)
    (offset : next.offset = cursor.offset + 1)
    (deepest : next.deepest = max (depthBefore role (cursor.offset + 1)) cursor.deepest) :
    next.Measures role := by
  rw [Measures, offset, deepest, depthsUpTo_succ]
  exact measures.insert _

theorem Measures.le (measures : cursor.Measures role) :
    depthBefore role cursor.offset ≤ cursor.deepest :=
  measures.2 (depthBefore_mem_depthsUpTo role cursor.offset)

theorem Measures.skip (measures : cursor.Measures role) (byte : UInt8)
    (plain : role cursor.offset = .plain) : (cursor.skip byte).Measures role := by
  apply measures.extend rfl
  rw [depthBefore_succ, plain]
  exact (max_eq_right measures.le).symm

theorem Measures.read (measures : cursor.Measures role) (tracks : cursor.Tracks role)
    (same : role cursor.offset = cursor.nesting.role byte) :
    (cursor.read byte).Measures role := by
  have after := depthBefore_succ role cursor.offset
  rw [same] at after
  apply measures.extend (cursor.offset_read byte)
  rw [after, Cursor.read]
  cases cursor.nesting.role byte with
  | opening =>
      rw [← tracks.depth]
      exact max_comm _ _
  | closing =>
      have lower := Int.le_trans (Int.sub_le_self _ Int.one_nonneg) measures.le
      exact (max_eq_right lower).symm
  | plain => exact (max_eq_right measures.le).symm

end Cursor

/-! ## Scans without comments -/

theorem Hollow.tracks_of_verdict {settings : Settings} {source : Bytes} {last : Cursor}
    (ok : (scanner settings).verdict source = .ok last) :
    last.Follows source [] ∧ last.Measures (roleAt source) := by
  rcases Scanner.finished_of_verdict ok with ⟨unread, finished⟩
  have ends := Scanner.finished_of_moves
    (fun cursor rest => cursor.Follows source rest ∧ cursor.Measures (roleAt source))
    (fun _ _ => False) ?moves ⟨Cursor.follows_initial source, Cursor.measures_initial _⟩ finished
  case moves =>
    intro cursor byte rest going
    dsimp only [scanner]
    cases settings.strict && cursor.strays byte with
    | true => trivial
    | false =>
        exact ⟨going.1.read, going.2.read going.1.tracks going.1.roleAt_eq⟩
  exact ends.resolve_right id

/-! ## The marker -/

namespace Declarations

section Marker

variable (topLevelMarker : Bool) (text : Bytes)

def markerHalfAt (position : Nat) : Bool :=
  text[position]? == some percent &&
    (!topLevelMarker || (!quotedAt text position && depthBefore (roleAt text) position = 0))

def markerAt (position : Nat) : Bool :=
  markerHalfAt topLevelMarker text position && markerHalfAt topLevelMarker text (position + 1)

/-- Just past the first marker of a text. -/
def markerEnd? : Option Nat :=
  (firstFrom (markerAt topLevelMarker text) 0 text.length).map (· + 2)

end Marker

variable {settings : Settings} {text rest : Bytes} {byte : UInt8} {position last : Position}

theorem lt_length_of_markerAt {topLevelMarker : Bool} {before : Nat}
    (marks : markerAt topLevelMarker text before = true) : before + 1 < text.length := by
  rw [markerAt, markerHalfAt, markerHalfAt] at marks
  simp only [Bool.and_eq_true, beq_iff_eq] at marks
  exact (List.getElem?_eq_some_iff.mp marks.2.1).1

theorem markerEnd?_le {topLevelMarker : Bool} {stop : Nat}
    (found : markerEnd? topLevelMarker text = some stop) : stop ≤ text.length := by
  rcases Option.map_eq_some_iff.mp found with ⟨before, first, rfl⟩
  exact lt_length_of_markerAt (firstFrom_eq_some_iff.mp first).1

theorem markerHalfAt_eq (follows : position.cursor.Follows text (byte :: rest)) :
    markerHalfAt settings.topLevelMarker text position.cursor.offset =
      isMarkerHalf settings position.cursor.nesting byte := by
  rcases drop_eq_cons follows.rest with ⟨here, -, -⟩
  rw [markerHalfAt, isMarkerHalf, here, ← follows.quoted, ← follows.tracks.depth]
  rfl

/-- A position on the way to the marker: no marker ends at it or before it. -/
structure Position.Seeks (position : Position) (topLevelMarker : Bool) (text rest : Bytes) :
    Prop where
  follows : position.cursor.Follows text rest
  measures : position.cursor.Measures (roleAt text)
  unmarked : position.rulesStart = none
  half : position.afterPercent = true ↔ ∃ before, before + 1 = position.cursor.offset ∧
    markerHalfAt topLevelMarker text before = true
  clear : ∀ before, before + 1 < position.cursor.offset →
    markerAt topLevelMarker text before = false

/-- A position at which the declarations are read: just past their marker, or at the
end of the text. -/
structure Position.Completes (position : Position) (topLevelMarker : Bool) (text : Bytes) :
    Prop where
  tracks : position.cursor.Tracks (roleAt text)
  measures : position.cursor.Measures (roleAt text)
  marker : position.rulesStart = markerEnd? topLevelMarker text
  offset : position.cursor.offset = (markerEnd? topLevelMarker text).getD text.length

namespace Position

theorem seeks_initial (topLevelMarker : Bool) (text : Bytes) :
    ({} : Position).Seeks topLevelMarker text text where
  follows := Cursor.follows_initial text
  measures := Cursor.measures_initial _
  unmarked := rfl
  half := by simp
  clear before earlier := by cases earlier

/-- A marker that ends at the byte that is read would have ended the scan. -/
theorem Seeks.read (seeks : position.Seeks settings.topLevelMarker text (byte :: rest))
    (goesOn : position.endsMarker settings byte = false) :
    (position.read settings byte).Seeks settings.topLevelMarker text rest := by
  have here : markerHalfAt settings.topLevelMarker text position.cursor.offset =
      isMarkerHalf settings position.cursor.nesting byte := markerHalfAt_eq seeks.follows
  have offset := position.cursor.offset_read byte
  refine ⟨seeks.follows.read, ?_, seeks.unmarked, ?_, ?_⟩
  · exact seeks.measures.read seeks.follows.tracks seeks.follows.roleAt_eq
  · rw [cursor_read, offset]
    change isMarkerHalf settings position.cursor.nesting byte = true ↔ _
    rw [← here]
    simp
  · intro before earlier
    rw [cursor_read, offset] at earlier
    rcases Nat.lt_succ_iff_lt_or_eq.mp earlier with passed | last
    · exact seeks.clear before passed
    · rw [Bool.eq_false_iff]
      intro marks
      rw [markerAt, last, here, Bool.and_eq_true] at marks
      rw [endsMarker, marks.2, seeks.half.mpr ⟨before, last, marks.1⟩] at goesOn
      cases goesOn

theorem Seeks.endAt (seeks : position.Seeks settings.topLevelMarker text (byte :: rest))
    (ends : position.endsMarker settings byte = true) :
    (position.endAt settings byte).Completes settings.topLevelMarker text := by
  rw [endsMarker, Bool.and_eq_true, ← markerHalfAt_eq seeks.follows, seeks.half] at ends
  rcases ends with ⟨second, before, next, first⟩
  rcases drop_eq_cons seeks.follows.rest with ⟨-, -, within⟩
  have found : markerEnd? settings.topLevelMarker text = some (position.cursor.offset + 1) := by
    rw [markerEnd?, ← next, Option.map_eq_some_iff]
    refine ⟨before, ?_, rfl⟩
    rw [firstFrom_eq_some_iff]
    refine ⟨?_, Nat.zero_le _, by omega, fun earlier _ passed => seeks.clear earlier (by omega)⟩
    rw [markerAt, first, next, second]
    rfl
  refine ⟨seeks.follows.read.tracks, ?_, found.symm, ?_⟩
  · exact seeks.measures.read seeks.follows.tracks seeks.follows.roleAt_eq
  · rw [found, cursor_endAt, Cursor.offset_read]
    rfl

theorem Seeks.completes {topLevelMarker : Bool} (seeks : position.Seeks topLevelMarker text []) :
    position.Completes topLevelMarker text := by
  have absent : markerEnd? topLevelMarker text = none := by
    rw [markerEnd?, Option.map_eq_none_iff, firstFrom_eq_none_iff]
    intro before _ within
    rw [Bool.eq_false_iff]
    intro marks
    have inside := lt_length_of_markerAt marks
    rw [seeks.clear before (seeks.follows.offset_eq ▸ inside)] at marks
    cases marks
  refine ⟨seeks.follows.tracks, seeks.measures, ?_, ?_⟩
  · rw [absent, seeks.unmarked]
  · rw [absent, seeks.follows.offset_eq]
    rfl

end Position

theorem completes_of_verdict {source : Bytes}
    (ok : (scanner settings).verdict source = .ok last) :
    last.Completes settings.topLevelMarker source := by
  rcases Scanner.finished_of_verdict ok with ⟨unread, finished⟩
  have ends := Scanner.finished_of_moves
    (fun position rest => position.Seeks settings.topLevelMarker source rest)
    (fun position _ => position.Completes settings.topLevelMarker source)
    ?moves (Position.seeks_initial _ source) finished
  case moves =>
    intro position byte rest seeks
    rw [move_eq]
    cases settings.strict && position.cursor.strays byte with
    | true => trivial
    | false =>
        cases marks : position.endsMarker settings byte with
        | true => exact seeks.endAt marks
        | false => exact seeks.read marks
  exact ends.elim Position.Seeks.completes id

end Declarations

/-! ## The rules -/

namespace Rules

variable {settings : Settings} {text rest : Bytes} {position : Position}

theorem measures_of_finished (follows : position.Follows text rest) :
    position.cursor.Measures (liveRoleAt text) → ∀ last unread,
      ((scanner settings).trace rest position).ending = .finished last unread →
      last.Follows text [] ∧ last.cursor.Measures (liveRoleAt text) := by
  refine Position.follows_induction (motive := fun position rest =>
    position.cursor.Measures (liveRoleAt text) → ∀ last unread,
      ((scanner settings).trace rest position).ending = .finished last unread →
      last.Follows text [] ∧ last.cursor.Measures (liveRoleAt text))
    ?finish ?close ?skip ?enter ?read follows
  case finish =>
    intro position follows measures last unread finished
    cases finished
    exact ⟨follows, measures⟩
  case close =>
    intro position later follows inside induction measures
    rcases Option.isSome_iff_exists.mp inside with ⟨start, same⟩
    rw [trace_close settings inside]
    exact induction ((measures.skip star (follows.liveRoleAt_inside same)).skip slash
      (follows.liveRoleAt_close same).2)
  case skip =>
    intro position byte rest follows inside going induction measures
    rcases Option.isSome_iff_exists.mp inside with ⟨start, same⟩
    rw [trace_skip settings inside going]
    exact induction (measures.skip byte (follows.liveRoleAt_inside same))
  case enter =>
    intro position later follows outside live induction measures
    rcases follows.liveRoleAt_enter outside live with ⟨-, first, second⟩
    rw [trace_open settings outside live]
    exact induction ((measures.skip slash first).skip star second)
  case read =>
    intro position byte rest follows outside ordinary induction measures last unread
    rw [trace_read settings outside ordinary]
    cases settings.strict && position.cursor.strays byte with
    | true =>
        intro finished
        cases finished
    | false =>
        exact induction (measures.read follows.tracks
          (follows.liveRoleAt_eq outside ordinary)) last unread

theorem measures_of_verdict {source : Bytes} {last : Position}
    (ok : (scanner settings).verdict source = .ok last) :
    last.Follows source [] ∧ last.cursor.Measures (liveRoleAt source) := by
  rcases Scanner.finished_of_verdict ok with ⟨unread, finished⟩
  exact measures_of_finished (Position.follows_initial source) (Cursor.measures_initial _)
    last unread finished

end Rules

/-! ## What the passes count -/

/-- The tally of a scan that read the bytes before `stop` and put `output`. The
depths are those of a text whose braces act as `role` says. -/
structure Tally.Counts (tally : Tally) (role : Nat → BraceRole) (stop : Nat)
    (output : Bytes) : Prop where
  bytesIn : tally.bytesIn = stop
  bytesOut : tally.bytesOut = output.length
  maxDepth : IsGreatest (depthsUpTo role stop) tally.maxDepth
  finalDepth : tally.finalDepth = depthBefore role stop

/-- The tally of a whole file. Each of its sections has its own depths, counted from
zero, and the last one has the final depth. -/
structure Tally.CountsSections (tally : Tally) (topLevelMarker : Bool)
    (source output : Bytes) : Prop where
  bytesIn : tally.bytesIn = source.length
  bytesOut : tally.bytesOut = output.length
  rulesOffset : tally.rulesOffset = Declarations.markerEnd? topLevelMarker source
  depths :
    match Declarations.markerEnd? topLevelMarker source with
    | none =>
        IsGreatest (depthsUpTo (roleAt source) source.length) tally.maxDepth ∧
          tally.finalDepth = depthBefore (roleAt source) source.length
    | some start =>
        let rules := source.drop start
        IsGreatest (depthsUpTo (roleAt source) start ∪
            depthsUpTo (Rules.liveRoleAt rules) rules.length) tally.maxDepth ∧
          tally.finalDepth = depthBefore (Rules.liveRoleAt rules) rules.length

def Pass.tally : (pass : Pass) → pass.Result → Tally
  | .declarations, (_, tally) => tally
  | .hollow, tally | .rules, tally | .tidy, tally | .job _, tally => tally

def Pass.Counts (settings : Settings) (source output : Bytes) : (pass : Pass) → pass.Result → Prop
  | .hollow, tally | .job .hollow, tally =>
      tally.Counts (roleAt source) source.length output ∧ tally.rulesOffset = none
  | .rules, tally =>
      tally.Counts (Rules.liveRoleAt source) source.length output ∧ tally.rulesOffset = none
  | .declarations, (start, tally) =>
      start = Declarations.markerEnd? settings.topLevelMarker source ∧
        tally.Counts (roleAt source) (start.getD source.length) output ∧
        tally.rulesOffset = start
  | .tidy, tally | .job .tidy, tally =>
      tally.CountsSections settings.topLevelMarker source output

section Counts

variable {settings : Settings} {source output : Bytes} {tally : Tally}

theorem Scanner.exists_verdict {State β : Type} {scanner : Scanner State} {value : State → β}
    {found : β} (ok : scanner.result source value = .ok found) :
    ∃ last, scanner.verdict source = .ok last ∧ found = value last := by
  unfold result at ok
  cases verdict : scanner.verdict source with
  | error defect =>
      rw [verdict] at ok
      cases ok
  | ok last =>
      rw [verdict] at ok
      exact ⟨last, rfl, (Except.ok.inj ok).symm⟩

theorem Cursor.counts_tally {cursor : Cursor} {role : Nat → BraceRole}
    (tracks : cursor.Tracks role) (measures : cursor.Measures role)
    (offset : cursor.offset = source.length) :
    (cursor.tally source output.length).Counts role source.length output where
  bytesIn := rfl
  bytesOut := rfl
  maxDepth := offset ▸ measures
  finalDepth := offset ▸ tracks.depth

theorem Hollow.counts_of_result (ok : result settings source = .ok tally) :
    tally.Counts (roleAt source) source.length (Hollow.output settings source) ∧
      tally.rulesOffset = none := by
  rcases Scanner.exists_verdict ok with ⟨last, verdict, rfl⟩
  rcases tracks_of_verdict verdict with ⟨follows, measures⟩
  exact ⟨Cursor.counts_tally follows.tracks measures follows.offset_eq, rfl⟩

theorem Rules.counts_of_result (ok : result settings source = .ok tally) :
    tally.Counts (liveRoleAt source) source.length (Rules.output settings source) ∧
      tally.rulesOffset = none := by
  rcases Scanner.exists_verdict ok with ⟨last, verdict, rfl⟩
  rcases measures_of_verdict verdict with ⟨follows, measures⟩
  exact ⟨Cursor.counts_tally follows.tracks measures follows.offset_eq, rfl⟩

theorem Declarations.counts_of_result {start : Option Nat}
    (ok : result settings source = .ok (start, tally)) :
    start = markerEnd? settings.topLevelMarker source ∧
      tally.Counts (roleAt source) (start.getD source.length)
        (Declarations.output settings source) ∧
      tally.rulesOffset = start := by
  rcases Scanner.exists_verdict ok with ⟨last, verdict, same⟩
  rcases Prod.mk.inj same with ⟨rfl, rfl⟩
  have completes := completes_of_verdict verdict
  have offset : last.cursor.offset = last.rulesStart.getD source.length := by
    rw [completes.offset, completes.marker]
  apply And.intro completes.marker
  apply And.intro _ rfl
  exact
    { bytesIn := rfl
      bytesOut := rfl
      maxDepth := offset ▸ completes.measures
      finalDepth := offset ▸ completes.tracks.depth }

theorem Tidy.counts_of_result (ok : result settings source = .ok tally) :
    tally.CountsSections settings.topLevelMarker source (Tidy.output settings source) := by
  unfold result at ok
  rcases declared : Declarations.result settings source with fault | ⟨_ | start, declarations⟩
  · rw [declared] at ok
    cases ok
  · rw [declared] at ok
    cases ok
    rcases Declarations.counts_of_result declared with ⟨unmarked, counts, offset⟩
    have output : Tidy.output settings source = Declarations.output settings source := by
      rw [Tidy.output, declared, List.append_nil]
    rw [output]
    refine ⟨counts.bytesIn, counts.bytesOut, offset.trans unmarked, ?_⟩
    rw [← unmarked]
    exact ⟨counts.maxDepth, counts.finalDepth⟩
  · rw [declared] at ok
    cases ruled : Rules.result settings (source.drop start) with
    | error fault =>
        dsimp only at ok
        rw [ruled] at ok
        cases ok
    | ok rules =>
        dsimp only at ok
        rw [ruled] at ok
        cases ok
        rcases Declarations.counts_of_result declared with ⟨marked, first, offset⟩
        have second := (Rules.counts_of_result ruled).1
        have within := Declarations.markerEnd?_le marked.symm
        have output : Tidy.output settings source = Declarations.output settings source ++
            Rules.output settings (source.drop start) := by
          rw [Tidy.output, declared]
        rw [output]
        refine ⟨?_, ?_, ?_, ?_⟩
        · rw [Tally.followedBy, first.bytesIn, second.bytesIn, List.length_drop]
          exact Nat.add_sub_cancel' within
        · rw [Tally.followedBy, first.bytesOut, second.bytesOut, List.length_append]
        · rw [Tally.followedBy, offset, ← marked]
          rfl
        · rw [← marked]
          exact ⟨first.maxDepth.union second.maxDepth, second.finalDepth⟩

theorem Tally.Counts.bounds {role : Nat → BraceRole} {stop : Nat}
    (counts : tally.Counts role stop output) :
    0 ≤ tally.maxDepth ∧ tally.finalDepth ≤ tally.maxDepth := by
  rw [counts.finalDepth]
  exact ⟨counts.maxDepth.2 (zero_mem_depthsUpTo role stop),
    counts.maxDepth.2 (depthBefore_mem_depthsUpTo role stop)⟩

theorem Tally.CountsSections.bounds {topLevelMarker : Bool}
    (counts : tally.CountsSections topLevelMarker source output) :
    0 ≤ tally.maxDepth ∧ tally.finalDepth ≤ tally.maxDepth := by
  have depths := counts.depths
  cases found : Declarations.markerEnd? topLevelMarker source with
  | none =>
      rw [found] at depths
      rw [depths.2]
      exact ⟨depths.1.2 (zero_mem_depthsUpTo _ _),
        depths.1.2 (depthBefore_mem_depthsUpTo _ _)⟩
  | some start =>
      rw [found] at depths
      rw [depths.2]
      exact ⟨depths.1.2 (.inl (zero_mem_depthsUpTo _ _)),
        depths.1.2 (.inr (depthBefore_mem_depthsUpTo _ _))⟩

end Counts

private theorem ok_of_run_memory {α : Type} {found : Except Fault α} {value : α}
    {run : Except (Failure Empty) α × Array UInt8} {held later : Array UInt8} {output : Bytes}
    (memory : run = (found.mapError .faulty, held ++ output)) (ran : run = (.ok value, later)) :
    found = .ok value ∧ later = held ++ output := by
  rw [memory] at ran
  rcases Prod.mk.inj ran with ⟨ok, rfl⟩
  cases found with
  | error fault => cases ok
  | ok other =>
      cases ok
      exact ⟨rfl, rfl⟩

/-- A pass that ends well in a memory tells the truth about itself: how much it
read and put, where it found the marker, and what the depths came to. -/
theorem Pass.counts_of_run_memory (pass : Pass) (settings : Settings) (source : Bytes)
    (held : Array UInt8) {result : pass.Result} {later : Array UInt8}
    (ran : (pass.run Outlet.memory settings source).run.run held = (.ok result, later)) :
    ∃ output : Bytes, later = held ++ output ∧ pass.Counts settings source output result ∧
      0 ≤ (pass.tally result).maxDepth ∧
      (pass.tally result).finalDepth ≤ (pass.tally result).maxDepth := by
  match pass with
  | .hollow | .job .hollow =>
      rcases ok_of_run_memory (Hollow.run_memory settings source held) ran with ⟨ok, appended⟩
      have counts := Hollow.counts_of_result ok
      exact ⟨_, appended, counts, counts.1.bounds⟩
  | .rules =>
      rcases ok_of_run_memory (Rules.run_memory settings source held) ran with ⟨ok, appended⟩
      have counts := Rules.counts_of_result ok
      exact ⟨_, appended, counts, counts.1.bounds⟩
  | .declarations =>
      rcases ok_of_run_memory (Declarations.run_memory settings source held) ran with
        ⟨ok, appended⟩
      have counts := Declarations.counts_of_result ok
      exact ⟨_, appended, counts, counts.2.1.bounds⟩
  | .tidy | .job .tidy =>
      rcases ok_of_run_memory (Tidy.run_memory settings source held) ran with ⟨ok, appended⟩
      have counts := Tidy.counts_of_result ok
      exact ⟨_, appended, counts, counts.bounds⟩

/-- The declarations are two blocks deep, and the rules end inside a block: neither
the brace in their comment nor the quoted one closes it. -/
theorem Pass.counts_of_run_memory_two_sections :
    let source := Bytes.ofText "\x7b\x7b\x7d\x7d a%%b \x7b /*\x7d*/'\x7d"
    let tally : Tally :=
      { bytesIn := 19, bytesOut := 7, maxDepth := 2, finalDepth := 1, rulesOffset := some 8 }
    let later := #[space, space, 0x61, percent, percent, newline, newline, 0x62]
    (Pass.tidy.run Outlet.memory {} source).run.run #[space] = (.ok tally, later) ∧
      ∃ output : Bytes, later = #[space] ++ output ∧
        tally.CountsSections false source output := by
  intro source tally later
  have ran : (Pass.tidy.run Outlet.memory {} source).run.run #[space] = (.ok tally, later) := rfl
  rcases Pass.counts_of_run_memory .tidy {} source #[space] ran with
    ⟨output, appended, counts, -⟩
  exact ⟨ran, output, appended, counts⟩

end GrammarTidy
