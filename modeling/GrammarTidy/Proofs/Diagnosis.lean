import GrammarTidy.Proofs.Comments
import GrammarTidy.Proofs.DeclarationsReading

/-! What a strict run says about a file, read off the positions of its braces and
comments. The scans carry a cursor instead; here the two are compared. -/

namespace GrammarTidy

open Byte

/-! ## Stray and unmatched braces -/

def straysAt (role : Nat → BraceRole) (position : Nat) : Bool :=
  role position = .closing && depthBefore role (position + 1) < 0

/-- An opening brace that no later brace closes: the depth before it is not come
back to. -/
def unmatchedAt (role : Nat → BraceRole) (length position : Nat) : Bool :=
  role position = .opening &&
    (List.range' (position + 1) (length - position)).all fun later =>
      depthBefore role position < depthBefore role later

def stray? (role : Nat → BraceRole) (length : Nat) : Option Defect :=
  (firstFrom (straysAt role) 0 length).map fun offset => { kind := .strayClose, offset }

def unclosed? (role : Nat → BraceRole) (length : Nat) : Option Defect :=
  (firstFrom (unmatchedAt role length) 0 length).map fun offset =>
    { kind := .unclosedBlock (depthBefore role length), offset }

section Roles

variable {role : Nat → BraceRole} {length : Nat}

theorem unmatchedAt_iff {position : Nat} (within : position < length) :
    unmatchedAt role length position = true ↔ role position = .opening ∧
      ∀ later, position < later → later ≤ length →
        depthBefore role position < depthBefore role later := by
  simp only [unmatchedAt, Bool.and_eq_true, decide_eq_true_eq, List.all_eq_true,
    List.mem_range'_1, and_imp]
  constructor
  · rintro ⟨opening, deeper⟩
    refine ⟨opening, fun later behind before => ?_⟩
    exact deeper later behind (by omega)
  · rintro ⟨opening, deeper⟩
    refine ⟨opening, fun later behind before => ?_⟩
    exact deeper later behind (by omega)

theorem depthBefore_nonneg (clear : stray? role length = none) :
    ∀ position ≤ length, 0 ≤ depthBefore role position := by
  have none : firstFrom (straysAt role) 0 length = none := Option.map_eq_none_iff.mp clear
  intro position
  induction position with
  | zero =>
      intro _
      exact Int.le_refl 0
  | succ position induction =>
      intro within
      have above := induction (Nat.le_of_succ_le within)
      have kept := firstFrom_eq_none_iff.mp none position (Nat.zero_le _) within
      have after := depthBefore_succ role position
      cases same : role position with
      | opening =>
          rw [same] at after
          rw [after]
          exact Int.le_add_one above
      | closing => simpa [straysAt, same] using kept
      | plain =>
          rw [same] at after
          rw [after]
          exact above

theorem unclosed?_eq {cursor : Cursor} (tracks : cursor.Tracks role)
    (clear : stray? role cursor.offset = none) :
    unclosed? role cursor.offset = cursor.unclosedBlock := by
  have above := depthBefore_nonneg clear
  unfold unclosed? Cursor.unclosedBlock
  split
  · rename_i positive
    rcases tracks.block positive with ⟨opening, within, zero, deeper⟩
    have first : firstFrom (unmatchedAt role cursor.offset) 0 cursor.offset =
        some cursor.blockStart := by
      rw [firstFrom_eq_some_iff]
      refine ⟨?_, Nat.zero_le _, within, ?_⟩
      · rw [unmatchedAt_iff within, zero]
        exact ⟨opening, deeper⟩
      · intro earlier _ before
        rw [Bool.eq_false_iff]
        intro unmatched
        have lower := ((unmatchedAt_iff (Nat.lt_trans before within)).mp unmatched).2
          cursor.blockStart before (Nat.le_of_lt within)
        have nonneg := above earlier (Nat.le_of_lt (Nat.lt_trans before within))
        omega
    rw [first, ← tracks.depth]
    rfl
  · rename_i outer
    have none : firstFrom (unmatchedAt role cursor.offset) 0 cursor.offset = none := by
      rw [firstFrom_eq_none_iff]
      intro position _ within
      rw [Bool.eq_false_iff]
      intro unmatched
      have lower := ((unmatchedAt_iff within).mp unmatched).2 cursor.offset within
        (Nat.le_refl _)
      have := above position (Nat.le_of_lt within)
      rw [← tracks.depth] at lower
      omega
    rw [none]
    rfl

theorem straysAt_eq {cursor : Cursor} {byte : UInt8} (tracks : cursor.Tracks role)
    (same : role cursor.offset = cursor.nesting.role byte) :
    straysAt role cursor.offset = cursor.strays byte := by
  have after := depthBefore_succ role cursor.offset
  unfold straysAt Cursor.strays
  rw [same] at after ⊢
  cases byteRole : cursor.nesting.role byte with
  | opening => rfl
  | plain => rfl
  | closing =>
      rw [byteRole, ← tracks.depth] at after
      rw [after]
      simp
      omega

end Roles

/-! ## The declarations -/

namespace Declarations

variable (topLevelMarker : Bool)

theorem strict_ending {text : Bytes} :
    ∀ (rest : Bytes) (position last : Position) (unread : Bytes),
      position.cursor.Follows text rest →
      ((scanner { topLevelMarker }).trace rest position).ending = .finished last unread →
      position.cursor.offset ≤ last.cursor.offset ∧
        ((scanner { strict := true, topLevelMarker }).trace rest position).ending =
          match firstFrom (straysAt (roleAt text)) position.cursor.offset
            last.cursor.offset with
          | some offset => .rejected { kind := .strayClose, offset }
          | none => .finished last unread := by
  intro rest
  induction rest with
  | nil =>
      intro position last unread _ finished
      cases finished
      rw [firstFrom_self]
      exact ⟨Nat.le_refl _, rfl⟩
  | cons byte rest induction =>
      intro position last unread follows finished
      have offset := position.cursor.offset_read byte
      have beyond : position.cursor.offset + 1 ≤ last.cursor.offset ∧
          (if position.endsMarker { strict := true, topLevelMarker } byte then
            .finished (position.endAt { strict := true, topLevelMarker } byte) rest
          else
            ((scanner { strict := true, topLevelMarker }).trace rest
              (position.read { strict := true, topLevelMarker } byte)).ending) =
          match firstFrom (straysAt (roleAt text)) (position.cursor.offset + 1)
            last.cursor.offset with
          | some offset => .rejected { kind := .strayClose, offset }
          | none => .finished last unread := by
        rw [ending_cons_of_lenient rfl] at finished
        rw [← offset]
        cases marks : position.endsMarker { topLevelMarker } byte with
        | true =>
            rw [marks] at finished
            cases finished
            have marksToo : position.endsMarker { strict := true, topLevelMarker } byte = true :=
              marks
            rw [marksToo, Position.cursor_endAt, firstFrom_self]
            exact ⟨Nat.le_refl _, rfl⟩
        | false =>
            rw [marks] at finished
            have goesOn : position.endsMarker { strict := true, topLevelMarker } byte = false :=
              marks
            rw [goesOn]
            exact induction _ last unread follows.read finished
      have strays := straysAt_eq follows.tracks follows.roleAt_eq
      refine ⟨Nat.le_of_succ_le beyond.1, ?_⟩
      rw [ending_cons]
      cases stray : position.cursor.strays byte with
      | true =>
          rw [firstFrom_of_test (strays.trans stray) beyond.1]
          rfl
      | false =>
          rw [firstFrom_succ _ (strays.trans stray)]
          exact beyond.2

def defect? (source : Bytes) (stop : Nat) : Option Defect :=
  (stray? (roleAt source) stop).or (unclosed? (roleAt source) stop)

theorem strict_verdict {source unread : Bytes} {last : Position}
    (finished : ((scanner { topLevelMarker }).trace source {}).ending = .finished last unread) :
    (scanner { strict := true, topLevelMarker }).verdict source =
      match defect? source last.cursor.offset with
      | some defect => .error defect
      | none => .ok last := by
  have follows := (endsBefore_of_finished finished rfl).follows
  have ending := (strict_ending topLevelMarker source {} last unread
    (Cursor.follows_initial source) finished).2
  unfold defect?
  cases first : firstFrom (straysAt (roleAt source)) 0 last.cursor.offset with
  | some offset =>
      rw [first] at ending
      rw [Scanner.verdict_of_rejected ending, stray?, first]
      rfl
  | none =>
      rw [first] at ending
      have clear : stray? (roleAt source) last.cursor.offset = none := by
        rw [stray?, first]
        rfl
      rw [Scanner.verdict_of_finished ending, clear, Option.none_or,
        unclosed?_eq follows.tracks clear]
      rfl

end Declarations

/-! ## The rules -/

namespace Rules

variable {text rest : Bytes} {position : Position}

private theorem strict_ending {settings : Settings} (strict : settings.strict = true)
    (follows : position.Follows text rest) :
    ((scanner settings).trace rest position).ending =
      match firstFrom (straysAt (liveRoleAt text)) position.cursor.offset text.length with
      | some offset => .rejected { kind := .strayClose, offset }
      | none => .finished (position.reach rest) [] := by
  have plain : ∀ {position}, liveRoleAt text position = .plain →
      straysAt (liveRoleAt text) position = false := by
    intro position role
    simp [straysAt, role]
  refine Position.follows_induction (motive := fun position rest =>
    ((scanner settings).trace rest position).ending =
      match firstFrom (straysAt (liveRoleAt text)) position.cursor.offset text.length with
      | some offset => .rejected { kind := .strayClose, offset }
      | none => .finished (position.reach rest) []) ?finish ?close ?skip ?enter ?read follows
  case finish =>
    intro position follows
    rw [follows.offset_eq, firstFrom_self]
    rfl
  case close =>
    intro position later follows inside induction
    rcases Option.isSome_iff_exists.mp inside with ⟨start, same⟩
    rw [trace_close settings inside, Position.reach_close inside, induction,
      firstFrom_succ _ (plain (follows.liveRoleAt_inside same)),
      firstFrom_succ _ (plain (follows.liveRoleAt_close same).2)]
    rfl
  case skip =>
    intro position byte rest follows inside going induction
    rcases Option.isSome_iff_exists.mp inside with ⟨start, same⟩
    rw [trace_skip settings inside going, Position.reach_skip inside going, induction,
      firstFrom_succ _ (plain (follows.liveRoleAt_inside same))]
    rfl
  case enter =>
    intro position later follows outside live induction
    rcases follows.liveRoleAt_enter outside live with ⟨-, first, second⟩
    rw [trace_open settings outside live, Position.reach_open outside live, induction,
      firstFrom_succ _ (plain first), firstFrom_succ _ (plain second)]
    rfl
  case read =>
    intro position byte rest follows outside ordinary induction
    have strays := straysAt_eq follows.tracks (follows.liveRoleAt_eq outside ordinary)
    rcases drop_eq_cons follows.rest with ⟨-, -, within⟩
    rw [trace_read settings outside ordinary, Position.reach_read outside ordinary, strict]
    cases stray : position.cursor.strays byte with
    | true =>
        rw [firstFrom_of_test (strays.trans stray) within]
        rfl
    | false =>
        rw [firstFrom_succ _ (strays.trans stray), ← position.offset_read byte]
        exact induction

theorem follows_reach (follows : position.Follows text rest) :
    (position.reach rest).Follows text [] := by
  refine Position.follows_induction (motive := fun position rest =>
    (position.reach rest).Follows text []) ?finish ?close ?skip ?enter ?read follows
  case finish =>
    intro position follows
    exact follows
  case close =>
    intro position later _ inside induction
    rwa [Position.reach_close inside]
  case skip =>
    intro position byte rest _ inside going induction
    rwa [Position.reach_skip inside going]
  case enter =>
    intro position later _ outside live induction
    rwa [Position.reach_open outside live]
  case read =>
    intro position byte rest _ outside ordinary induction
    rwa [Position.reach_read outside ordinary]

theorem openComment?_eq (follows : position.Follows text []) :
    openComment? text = position.comment := by
  have closed : ∀ {seen : List Nat} {stop}, (∀ start ∈ seen, ClosedBefore text start stop) →
      seen.find? (fun start => (closer? text start).isNone) = none := by
    intro seen stop past
    rw [List.find?_eq_none]
    intro start member
    rcases past start member with ⟨closer, found, -⟩
    simp [found]
  unfold openComment?
  cases comment : position.comment with
  | none =>
      rcases follows.between comment with ⟨seen, split, past⟩
      have rest : commentsFrom text position.cursor.offset = [] := by
        apply commentsFrom_of_none
        rw [follows.offset_eq, firstFrom_self]
      rw [split, rest, List.append_nil, closed past]
  | some start =>
      have inside := follows.inside start comment
      rcases inside.seen with ⟨seen, split, past⟩
      have unclosed : closer? text start = none := by
        apply firstFrom_eq_none_iff.mpr
        rw [← follows.offset_eq]
        exact inside.going
      rw [split, List.find?_append, closed past, List.find?_cons_of_pos]
      · rfl
      · rw [unclosed]
        rfl

def defect? (rules : Bytes) : Option Defect :=
  (stray? (liveRoleAt rules) rules.length).or
    (((openComment? rules).map fun offset => { kind := .unclosedComment, offset }).or
      (unclosed? (liveRoleAt rules) rules.length))

theorem strict_verdict {settings : Settings} (strict : settings.strict = true) (rules : Bytes) :
    (scanner settings).verdict rules =
      match defect? rules with
      | some defect => .error defect
      | none => .ok (({} : Position).reach rules) := by
  have initial := Position.follows_initial rules
  have ending := strict_ending strict initial
  have last := follows_reach initial
  unfold defect?
  cases first : firstFrom (straysAt (liveRoleAt rules)) 0 rules.length with
  | some offset =>
      rw [first] at ending
      rw [Scanner.verdict_of_rejected ending, stray?, first]
      rfl
  | none =>
      rw [first] at ending
      have clear : stray? (liveRoleAt rules) rules.length = none := by
        rw [stray?, first]
        rfl
      have block : unclosed? (liveRoleAt rules) rules.length =
          (({} : Position).reach rules).cursor.unclosedBlock := by
        rw [← last.offset_eq] at clear ⊢
        exact unclosed?_eq last.tracks clear
      rw [Scanner.verdict_of_finished ending, clear, Option.none_or, openComment?_eq last, block]
      unfold scanner
      dsimp only
      rw [strict]
      cases (({} : Position).reach rules).comment with
      | none => rfl
      | some start => rfl

end Rules

/-! ## Whole files -/

def Defect.shift (defect : Defect) (base : Nat) : Defect :=
  { defect with offset := base + defect.offset }

def Fault.Kind.mark : Fault.Kind → UInt8
  | .strayClose => closeBrace
  | .unclosedBlock _ => openBrace
  | .unclosedComment => slash

/-- The byte of a text that a defect points at is of the defect's kind. -/
def Defect.Marks (defect : Defect) (text : Bytes) : Prop :=
  text[defect.offset]? = some defect.kind.mark

section Marks

variable {text : Bytes} {role : Nat → BraceRole} {length : Nat} {defect : Defect}

theorem closeBrace_of_roleAt {position : Nat} (closing : roleAt text position = .closing) :
    text[position]? = some closeBrace := by
  grind [roleAt]

theorem openBrace_of_roleAt {position : Nat} (opening : roleAt text position = .opening) :
    text[position]? = some openBrace := by
  grind [roleAt]

private theorem roleAt_of_liveRoleAt {position : Nat}
    (live : Rules.liveRoleAt text position ≠ .plain) :
    Rules.liveRoleAt text position = roleAt text position := by
  unfold Rules.liveRoleAt at live ⊢
  split
  · rename_i inside
    rw [if_pos inside] at live
    exact absurd rfl live
  · rfl

private theorem marks_of_stray? (same : ∀ position, role position ≠ .plain →
      role position = roleAt text position) (found : stray? role length = some defect) :
    defect.Marks text := by
  rcases Option.map_eq_some_iff.mp found with ⟨offset, first, rfl⟩
  have strays := (firstFrom_eq_some_iff.mp first).1
  simp only [straysAt, Bool.and_eq_true, decide_eq_true_eq] at strays
  apply closeBrace_of_roleAt
  rw [← same offset (by simp [strays.1]), strays.1]

private theorem marks_of_unclosed? (same : ∀ position, role position ≠ .plain →
      role position = roleAt text position) (found : unclosed? role length = some defect) :
    defect.Marks text := by
  rcases Option.map_eq_some_iff.mp found with ⟨offset, first, rfl⟩
  have unmatched := (firstFrom_eq_some_iff.mp first).1
  simp only [unmatchedAt, Bool.and_eq_true, decide_eq_true_eq] at unmatched
  apply openBrace_of_roleAt
  rw [← same offset (by simp [unmatched.1]), unmatched.1]

private theorem Declarations.marks_of_defect? {stop : Nat}
    (found : defect? text stop = some defect) :
    defect.Marks text := by
  rcases Option.or_eq_some_iff.mp found with stray | ⟨-, unclosed⟩
  · exact marks_of_stray? (fun _ _ => rfl) stray
  · exact marks_of_unclosed? (fun _ _ => rfl) unclosed

private theorem Rules.marks_of_defect? (found : defect? text = some defect) :
    defect.Marks text := by
  rcases Option.or_eq_some_iff.mp found with stray | ⟨-, later⟩
  · exact marks_of_stray? (fun _ => roleAt_of_liveRoleAt) stray
  · rcases Option.or_eq_some_iff.mp later with comment | ⟨-, unclosed⟩
    · rcases Option.map_eq_some_iff.mp comment with ⟨start, isOpen, rfl⟩
      have opens := opensAt_of_mem_commentsFrom (List.mem_of_find?_eq_some isOpen)
      simp only [opensAt, Bool.and_eq_true, beq_iff_eq] at opens
      exact opens.1.1
    · exact marks_of_unclosed? (fun _ => roleAt_of_liveRoleAt) unclosed

end Marks

/-- The end of the marker that a lenient scan finds. -/
def rulesStart? (topLevelMarker : Bool) (source : Bytes) : Option Nat :=
  match (Outlet.inMemory (Declarations.run · { topLevelMarker } source)).1 with
  | .ok (start, _) => start
  | .error _ => none

/-- What is wrong with a file. Its declarations come first, and its rules only if
they are in order. -/
def diagnosis (topLevelMarker : Bool) (source : Bytes) : Option Defect :=
  let start := rulesStart? topLevelMarker source
  (Declarations.defect? source (start.getD source.length)).or
    (start.bind fun start => (Rules.defect? (source.drop start)).map (·.shift start))

section Finished

variable {topLevelMarker : Bool} {source unread : Bytes} {last : Declarations.Position}
  (finished : ((Declarations.scanner { topLevelMarker }).trace source {}).ending =
    .finished last unread)

include finished

theorem rulesStart?_of_finished : rulesStart? topLevelMarker source = last.rulesStart := by
  rw [rulesStart?, Declarations.inMemory_run, Declarations.result_of_finished finished rfl]

theorem stop_of_finished : last.rulesStart.getD source.length = last.cursor.offset := by
  have ends := Declarations.endsBefore_of_finished finished rfl
  rcases ends.marker with marked | ⟨unmarked, rfl⟩
  · rw [marked]
    rfl
  · rw [unmarked, ends.follows.offset_eq]
    rfl

end Finished

namespace Tidy

variable (topLevelMarker : Bool) (source : Bytes)

theorem result_strict :
    match diagnosis topLevelMarker source with
    | some defect =>
        result { strict := true, topLevelMarker } source = .error (defect.locate source)
    | none => ∃ tally, result { strict := true, topLevelMarker } source = .ok tally := by
  rcases (@Declarations.tolerant { topLevelMarker } rfl).trace source {} with
    ⟨last, unread, finished⟩
  have declared := Declarations.strict_verdict topLevelMarker finished
  unfold diagnosis
  dsimp only
  rw [rulesStart?_of_finished finished, stop_of_finished finished, result,
    Declarations.result, Scanner.result, declared]
  cases Declarations.defect? source last.cursor.offset with
  | some defect => rfl
  | none =>
      dsimp only
      cases last.rulesStart with
      | none => exact ⟨_, rfl⟩
      | some start =>
          dsimp only [Option.bind_some, Option.none_or]
          rw [Rules.result, Scanner.result, Rules.strict_verdict rfl]
          cases Rules.defect? (source.drop start) with
          | some defect => rfl
          | none => exact ⟨_, rfl⟩

private theorem isSome_unclosed?_declarations :
    let stop := (rulesStart? topLevelMarker source).getD source.length
    stray? (roleAt source) stop = none →
      ((unclosed? (roleAt source) stop).isSome ↔ 0 < depthBefore (roleAt source) stop) := by
  rcases (@Declarations.tolerant { topLevelMarker } rfl).trace source {} with
    ⟨last, unread, finished⟩
  have tracks := (Declarations.endsBefore_of_finished finished rfl).follows.tracks
  intro stop
  have offset : stop = last.cursor.offset := by
    rw [← stop_of_finished finished, ← rulesStart?_of_finished finished]
  rw [offset]
  intro clear
  rw [unclosed?_eq tracks clear, ← tracks.depth, Cursor.unclosedBlock]
  split
  · rename_i positive
    exact ⟨fun _ => positive, fun _ => rfl⟩
  · rename_i outer
    exact ⟨nofun, fun positive => absurd positive outer⟩

end Tidy

theorem marks_of_diagnosis {topLevelMarker : Bool} {source : Bytes} {defect : Defect}
    (found : diagnosis topLevelMarker source = some defect) : defect.Marks source := by
  rcases Option.or_eq_some_iff.mp found with declared | ⟨-, ruled⟩
  · exact Declarations.marks_of_defect? declared
  · rcases Option.bind_eq_some_iff.mp ruled with ⟨start, -, shifted⟩
    rcases Option.map_eq_some_iff.mp shifted with ⟨defect, inRules, rfl⟩
    have marks := Rules.marks_of_defect? inRules
    rw [Defect.Marks, List.getElem?_drop] at marks
    exact marks

theorem Location.locate_eq {source : Bytes} {offset : Nat} (within : offset ≤ source.length) :
    locate source offset =
      { offset
        line := 1 + (source.take offset).count newline
        column := 1 + ((source.take offset).reverse.takeWhile (· != newline)).length } := by
  have shorter := (List.takeWhile_prefix (l := (source.take offset).reverse)
    (· != newline)).length_le
  rw [List.length_reverse, List.length_take, Nat.min_eq_left within] at shorter
  unfold locate lastLineStart
  dsimp only
  rw [List.length_take, Nat.min_eq_left within]
  congr 1
  omega

/-- A strict run into an outlet that refuses nothing rejects a file exactly for
what is wrong with it, at the place in the whole file, and accepts all others. -/
theorem Tidy.run_strict_eq_diagnosis {σ Refusal : Type} {outlet : Outlet (StateM σ) Refusal}
    (accepts : outlet.Accepts) (held : σ) (topLevelMarker : Bool) (source : Bytes) :
    let result := ((Tidy.run outlet { strict := true, topLevelMarker } source).run.run held).1
    let stop := (rulesStart? topLevelMarker source).getD source.length
    (match diagnosis topLevelMarker source with
      | none => ∃ tally, result = .ok tally
      | some defect =>
          result = .error (.faulty
            { kind := defect.kind
              location :=
                { offset := defect.offset
                  line := 1 + (source.take defect.offset).count newline
                  column := 1 + ((source.take defect.offset).reverse.takeWhile
                    (· != newline)).length } }) ∧
            defect.offset < source.length ∧
            source[defect.offset]? = some defect.kind.mark) ∧
      (stray? (roleAt source) stop = none →
        ((unclosed? (roleAt source) stop).isSome ↔ 0 < depthBefore (roleAt source) stop)) := by
  intro result stop
  refine ⟨?_, isSome_unclosed?_declarations topLevelMarker source⟩
  have ran : result = _ :=
    Tidy.run_of_accepts { strict := true, topLevelMarker } source accepts held
  have conclusion := result_strict topLevelMarker source
  cases found : diagnosis topLevelMarker source with
  | none =>
      rw [found] at conclusion
      rcases conclusion with ⟨tally, ok⟩
      rw [ok] at ran
      exact ⟨tally, ran⟩
  | some defect =>
      rw [found] at conclusion
      rw [conclusion] at ran
      have marks : source[defect.offset]? = some defect.kind.mark := marks_of_diagnosis found
      have within := (List.getElem?_eq_some_iff.mp marks).1
      refine ⟨?_, within, marks⟩
      rw [ran, Defect.locate, Location.locate_eq (Nat.le_of_lt within)]
      rfl

/-- The block of the rules section is left open, but so is the comment in it, and
the comment counts. -/
theorem Tidy.run_strict_eq_diagnosis_in_memory :
    let source := Bytes.ofText "\x7b\x7d\n%%a\n\x7b /* \x7d"
    Outlet.memory.Accepts ∧
      diagnosis true source = some { kind := .unclosedComment, offset := 9 } ∧
      ((Tidy.run Outlet.memory { strict := true, topLevelMarker := true } source).run.run #[]).1 =
        .error (.faulty { kind := .unclosedComment, location := ⟨9, 3, 3⟩ }) := by
  intro source
  have diagnosed : diagnosis true source = some { kind := .unclosedComment, offset := 9 } := by
    decide +kernel
  have strict := (Tidy.run_strict_eq_diagnosis Outlet.memory_accepts #[] true source).1
  rw [diagnosed] at strict
  exact ⟨Outlet.memory_accepts, diagnosed, strict.1⟩

end GrammarTidy
