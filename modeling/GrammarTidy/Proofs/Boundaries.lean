import GrammarTidy.Proofs.Cells
import GrammarTidy.Proofs.Diagnosis
import GrammarTidy.Proofs.Edits
import GrammarTidy.Proofs.Hollowing
import GrammarTidy.Proofs.NormalForm
import GrammarTidy.Proofs.Tallies

/-! Where a text can be cut in two. Behind the first piece a scan goes on as if the
second one were a text of its own, once what it remembers of the first piece cannot
matter any more. What it remembers for its tally is the greatest depth. -/

namespace GrammarTidy

open Byte

/-! ## Tallies of two pieces -/

/-- A cursor that stands as another one does, behind a text with the greatest depth
`before`. -/
structure Cursor.Resumes (cursor fresh : Cursor) (before : Int) : Prop where
  nesting : cursor.nesting = fresh.nesting
  deepest : cursor.deepest = max before fresh.deepest

namespace Cursor.Resumes

variable {cursor fresh : Cursor} {before : Int}

theorem skip (resumes : cursor.Resumes fresh before) (byte : UInt8) :
    (cursor.skip byte).Resumes (fresh.skip byte) before where
  nesting := congrArg (Nesting.after · byte) resumes.nesting
  deepest := resumes.deepest

theorem read (resumes : cursor.Resumes fresh before) (byte : UInt8) :
    (cursor.read byte).Resumes (fresh.read byte) before where
  nesting := by rw [nesting_read, nesting_read, resumes.nesting]
  deepest := by
    rw [Cursor.read, Cursor.read, resumes.nesting]
    cases fresh.nesting.role byte with
    | opening =>
        change max cursor.deepest cursor.nesting.enter.depth =
          max before (max fresh.deepest fresh.nesting.enter.depth)
        rw [resumes.deepest, resumes.nesting, max_assoc]
    | closing => exact resumes.deepest
    | plain => exact resumes.deepest

theorem foldl_read (resumes : cursor.Resumes fresh before) (text : Bytes) :
    (text.foldl Cursor.read cursor).Resumes (text.foldl Cursor.read fresh) before := by
  induction text generalizing cursor fresh with
  | nil => exact resumes
  | cons byte text induction => exact induction (resumes.read byte)

theorem tally_eq {first : Cursor} (resumes : cursor.Resumes fresh first.deepest)
    (front back : Bytes) (frontBytes backBytes : Nat) :
    cursor.tally (front ++ back) (frontBytes + backBytes) =
      (first.tally front frontBytes).followedBy (fresh.tally back backBytes) := by
  simp only [tally, Tally.followedBy, List.length_append, resumes.deepest, resumes.nesting]
  rfl

end Cursor.Resumes

theorem Cursor.Measures.resumes {cursor : Cursor} {role : Nat → BraceRole}
    (measures : cursor.Measures role) (level : cursor.nesting = {}) :
    cursor.Resumes {} cursor.deepest where
  nesting := level
  deepest := (max_eq_left (measures.2 (zero_mem_depthsUpTo role cursor.offset))).symm

private theorem quotedAt_length (text : Bytes) :
    quotedAt text text.length = (text.getLast? == some quote) := by
  rw [quotedAt, List.getLast?_eq_getElem?]
  cases text <;> simp

/-! ## Hollowing in pieces -/

namespace Hollow

theorem hollowed_append (nesting : Nesting) (front back : Bytes) :
    hollowed nesting (front ++ back) =
      hollowed nesting front ++ hollowed (front.foldl Nesting.read nesting) back := by
  induction front generalizing nesting with
  | nil => rfl
  | cons byte front induction =>
      rw [List.cons_append, hollowed, hollowed, induction, List.foldl_cons]
      split <;> rfl

variable {settings : Settings} (lenient : settings.strict = false) (source : Bytes)

include lenient

private theorem ending_of_lenient (cursor : Cursor) :
    ((scanner settings).trace source cursor).ending =
      .finished (source.foldl Cursor.read cursor) [] := by
  induction source generalizing cursor with
  | nil => rfl
  | cons byte rest induction =>
      rw [trace_cons settings, lenient]
      exact induction (cursor.read byte)

theorem verdict_of_lenient :
    (scanner settings).verdict source = .ok (source.foldl Cursor.read {}) := by
  rw [Scanner.verdict_of_finished (ending_of_lenient lenient source _), (tolerant lenient).ends]
  rfl

theorem inMemory_of_lenient :
    Outlet.inMemory (Hollow.run · settings source) =
      (.ok ((source.foldl Cursor.read {}).tally source (hollowed {} source).length),
        hollowed {} source) := by
  have left : output settings source = hollowed {} source :=
    output_eq_hollowed lenient source {}
  rw [inMemory_of_verdict (verdict_of_lenient lenient source), left]

theorem inMemory_append {front : Bytes} (back : Bytes)
    (level : (front.foldl Cursor.read {}).nesting.depth = 0)
    (live : front.getLast? ≠ some quote) :
    Outlet.inMemory (Hollow.run · settings (front ++ back)) =
      (.ok (((front.foldl Cursor.read {}).tally front (hollowed {} front).length).followedBy
          ((back.foldl Cursor.read {}).tally back (hollowed {} back).length)),
        hollowed {} front ++ hollowed {} back) := by
  have ok := verdict_of_lenient lenient front
  rcases tracks_of_verdict ok with ⟨follows, measures⟩
  have unquoted : (front.foldl Cursor.read {}).nesting.quoted = false := by
    rw [follows.quoted, follows.offset_eq, quotedAt_length]
    exact beq_false_of_ne live
  have reached : (front.foldl Cursor.read {}).nesting = {} :=
    congrArg₂ Nesting.mk level unquoted
  have resumes := (measures.resumes reached).foldl_read back
  have left : hollowed {} (front ++ back) = hollowed {} front ++ hollowed {} back := by
    rw [hollowed_append, ← nesting_of_verdict ok, reached]
  rw [inMemory_of_lenient lenient, left, List.length_append, List.foldl_append,
    resumes.tally_eq]

end Hollow

/-! ## Layouts in pieces -/

namespace Rules

namespace Position

variable {position left right : Position} {text rest : Bytes} {before : Int}

theorem reach_append (parted : (position.reach text).Parted rest) :
    position.reach (text ++ rest) = (position.reach text).reach rest := by
  rcases (@tolerant {} rfl).trace text position with ⟨last, unread, finished⟩
  apply reach_congr
  rw [trace_append {} parted, finished]
  rfl

private theorem previous_reach (position : Position) (text : Bytes) :
    (position.reach text).previous = text.getLast?.getD position.previous := by
  induction position, text using reading_induction with
  | finish position => rfl
  | close position later inside induction =>
      rw [reach_close inside, induction]
      cases later <;> rfl
  | skip position byte rest inside going induction =>
      rw [reach_skip inside going, induction]
      cases rest <;> rfl
  | enter position later outside live induction =>
      rw [reach_open outside live, induction]
      cases later <;> rfl
  | read position byte rest outside ordinary induction =>
      rw [reach_read outside ordinary, induction]
      cases rest <;> rfl

theorem Alike.resumes_reach (alike : left.Alike right)
    (resumes : left.cursor.Resumes right.cursor before) (rest : Bytes) :
    (left.reach rest).cursor.Resumes (right.reach rest).cursor before := by
  induction left, rest using reading_induction generalizing right with
  | finish left => exact resumes
  | close left later inside induction =>
      rw [reach_close inside, reach_close (alike.comment ▸ inside)]
      have next := (alike.skip star).skip slash
      exact induction ⟨next.nesting, rfl, rfl⟩ ((resumes.skip star).skip slash)
  | skip left byte rest inside going induction =>
      rw [reach_skip inside going, reach_skip (alike.comment ▸ inside) going]
      exact induction (alike.skip byte) (resumes.skip byte)
  | enter left later outside live induction =>
      rw [reach_open outside live, reach_open (alike.outside outside) (alike.nesting ▸ live)]
      have next := (alike.skip slash).skip star
      exact induction ⟨next.nesting, rfl, rfl⟩ ((resumes.skip slash).skip star)
  | read left byte rest outside ordinary induction =>
      have ordinaryRight : right.opensComment byte rest.head? = false := by
        rw [opensComment, ← alike.nesting]
        exact ordinary
      rw [reach_read outside ordinary, reach_read (alike.outside outside) ordinaryRight]
      exact induction (alike.read byte) (resumes.read byte)

/-- A position from which a text is laid out as on its own: outside comments and
blocks, with nothing quoted, and behind a byte that neither sets a token apart nor
starts a comment. -/
structure Fresh (position : Position) : Prop where
  idle : position.Idle
  live : position.cursor.nesting.quoted = false
  unspaced : isBlank position.previous = false
  notSlash : position.previous ≠ slash

theorem Fresh.nesting_eq (fresh : position.Fresh) : position.cursor.nesting = {} :=
  congrArg₂ Nesting.mk fresh.idle.depth fresh.live

theorem Fresh.alike (fresh : position.Fresh) : position.Alike {} where
  nesting := fresh.nesting_eq
  previous := fresh.unspaced
  comment := congrArg Option.isSome fresh.idle.comment

theorem Fresh.parted (fresh : position.Fresh) (rest : Bytes) : position.Parted rest where
  start isSlash := absurd isSlash fresh.notSlash
  finish inside := by
    rw [fresh.idle.comment] at inside
    cases inside

end Position

variable {settings : Settings} (lenient : settings.strict = false) {front : Bytes}

include lenient

private theorem scanner_of_lenient : scanner settings = scanner {} := by
  rw [scanner, lenient]
  rfl

theorem inMemory_of_lenient (source : Bytes) :
    Outlet.inMemory (Rules.run · settings source) =
      (.ok ((({} : Position).reach source).cursor.tally source (output {} source).length),
        output {} source) := by
  have same := scanner_of_lenient lenient
  rcases (@tolerant {} rfl).trace source {} with ⟨last, unread, finished⟩
  rw [inMemory_run, result, output, same, Scanner.result, Scanner.verdict_of_finished finished,
    (@tolerant {} rfl).ends, Position.reach, finished]
  rfl

theorem inMemory_append (fresh : (({} : Position).reach front).Fresh) (back : Bytes) :
    Outlet.inMemory (Rules.run · settings (front ++ back)) =
      (.ok (((({} : Position).reach front).cursor.tally front (output {} front).length).followedBy
          ((({} : Position).reach back).cursor.tally back (output {} back).length)),
        output {} front ++ output {} back) := by
  have parted := fresh.parted back
  rcases (@tolerant {} rfl).trace front {} with ⟨last, unread, finished⟩
  have measures := (measures_of_finished (Position.follows_initial front)
    (Cursor.measures_initial _) last unread finished).2
  have reached : ({} : Position).reach front = last := by rw [Position.reach, finished]
  rw [← reached] at measures
  have resumes := fresh.alike.resumes_reach (measures.resumes fresh.nesting_eq) back
  have laidOut : output {} (front ++ back) = output {} front ++ output {} back := by
    rw [output, trace_append {} parted, finished]
    dsimp only
    rw [Scanner.Trace.output_after]
    exact congrArg (fun chunks => output {} front ++ chunks.flatten)
      (fresh.alike.trace back).chunks
  rw [inMemory_of_lenient lenient, laidOut, List.length_append, Position.reach_append parted,
    resumes.tally_eq]

omit lenient

private theorem reach_idle (level : (({} : Position).reach front).cursor.nesting.depth = 0)
    (closed : openComment? front = none) : (({} : Position).reach front).Idle where
  comment := (openComment?_eq (follows_reach (Position.follows_initial front))).symm.trans closed
  depth := level

theorem reach_live (live : front.getLast? ≠ some quote) :
    (({} : Position).reach front).cursor.nesting.quoted = false := by
  have follows := follows_reach (Position.follows_initial front)
  rw [follows.quoted, follows.offset_eq, quotedAt_length]
  exact beq_false_of_ne live

private theorem reach_fresh (idle : (({} : Position).reach front).Idle)
    (last : ∀ byte ∈ front.getLast?, byte ∉ [space, tab, quote, slash]) :
    (({} : Position).reach front).Fresh := by
  have previous := Position.previous_reach {} front
  have live : front.getLast? ≠ some quote := fun ends => last quote ends (by decide)
  refine ⟨idle, reach_live live, ?_, ?_⟩
  · rw [previous]
    cases ends : front.getLast? with
    | none => rfl
    | some byte =>
        have other := last byte ends
        simp only [List.mem_cons, not_or] at other
        simp [isBlank, other]
  · rw [previous]
    cases ends : front.getLast? with
    | none => decide
    | some byte =>
        intro isSlash
        have other := last byte ends
        simp only [List.mem_cons, not_or] at other
        exact other.2.2.2.1 isSlash

private theorem output_semicolon (idle : (({} : Position).reach front).Idle)
    (live : (({} : Position).reach front).cursor.nesting.quoted = false) :
    (({} : Position).reach (front ++ [semicolon])).Fresh ∧
      output {} (front ++ [semicolon]) = output {} front ++ [semicolon, newline, newline] := by
  have parted : (({} : Position).reach front).Parted [semicolon] :=
    (Position.detached_cons (by decide) (by decide)).parted
  have reached : ({} : Position).reach (front ++ [semicolon]) =
      (({} : Position).reach front).read semicolon := by
    rw [Position.reach_append parted, Position.reach_read idle.comment rfl]
    rfl
  rcases (@tolerant {} rfl).trace front {} with ⟨last, unread, finished⟩
  constructor
  · rw [reached]
    have live : ((({} : Position).reach front).read semicolon).cursor.nesting.quoted = false := by
      rw [Position.nesting_read, Nesting.quoted_read]
      rfl
    have notSlash : semicolon ≠ slash := by decide
    exact ⟨idle.read (role_of_separator _ rfl), live, rfl, notSlash⟩
  · rw [output, trace_append {} parted, finished]
    dsimp only
    rw [Scanner.Trace.output_after, output_separator rfl idle live rfl]
    rfl

end Rules

/-- Lenient passes do their work piece by piece. A text is hollowed in two pieces if
the first one ends at depth zero and not with a quote. It is laid out in two pieces if
the first one ends outside comments, at depth zero, and with a byte that has no hold on
the next one. The tally of the whole follows from those of the pieces. So what comes
behind the semicolon of a rule is laid out in the same way, whatever the rule is. -/
theorem Pass.lenient_runs_in_pieces (topLevelMarker : Bool) (front back : Bytes) :
    let settings : Settings := { topLevelMarker }
    let hollow text := Outlet.inMemory (Hollow.run · settings text)
    let layOut text := Outlet.inMemory (Rules.run · settings text)
    (∃ first second, (hollow front).1 = .ok first ∧ (hollow back).1 = .ok second ∧
      (first.finalDepth = 0 → front.getLast? ≠ some quote →
        hollow (front ++ back) =
          (.ok (first.followedBy second), (hollow front).2 ++ (hollow back).2))) ∧
    ∃ first second, (layOut front).1 = .ok first ∧ (layOut back).1 = .ok second ∧
      (first.finalDepth = 0 → Rules.openComment? front = none →
        ((∀ last ∈ front.getLast?, last ∉ [space, tab, quote, slash]) →
          layOut (front ++ back) =
            (.ok (first.followedBy second), (layOut front).2 ++ (layOut back).2)) ∧
        (front.getLast? ≠ some quote →
          (layOut (front ++ semicolon :: back)).2 =
            (layOut front).2 ++ [semicolon, newline, newline] ++ (layOut back).2)) := by
  intro settings hollow layOut
  have lenient : settings.strict = false := rfl
  have hollows := fun text => Hollow.inMemory_of_lenient lenient text
  have laysOut := fun text => Rules.inMemory_of_lenient lenient text
  refine ⟨⟨_, _, congrArg Prod.fst (hollows front), congrArg Prod.fst (hollows back), ?_⟩,
    _, _, congrArg Prod.fst (laysOut front), congrArg Prod.fst (laysOut back), ?_⟩
  · intro level live
    dsimp only [hollow]
    rw [Hollow.inMemory_append lenient back level live, hollows front, hollows back]
  · intro level closed
    have idle := Rules.reach_idle level closed
    constructor
    · intro last
      dsimp only [layOut]
      rw [Rules.inMemory_append lenient (Rules.reach_fresh idle last), laysOut front,
        laysOut back]
    · intro live
      rcases Rules.output_semicolon idle (Rules.reach_live live) with ⟨fresh, ends⟩
      have pieces := Rules.inMemory_append lenient fresh back
      rw [List.append_assoc] at pieces
      dsimp only [layOut]
      rw [laysOut front, laysOut back, ← ends]
      exact congrArg Prod.snd pieces

/-- The first piece ends with a block and a comment before its semicolon, and the second
one starts with a star that ends no comment. -/
theorem Pass.lenient_runs_in_pieces_of_rule :
    let front := Bytes.ofText "a: '\x7b' \x7b b; \x7d /* c */;"
    let back := Bytes.ofText "*/ d | e"
    let hollow text := Outlet.inMemory (Hollow.run · {} text)
    let layOut text := Outlet.inMemory (Rules.run · {} text)
    front.getLast? = some semicolon ∧ Rules.openComment? front = none ∧
      (hollow (front ++ back)).2 = (hollow front).2 ++ (hollow back).2 ∧
      (layOut (front ++ back)).2 = (layOut front).2 ++ (layOut back).2 ∧
      (layOut (front ++ semicolon :: back)).2 =
        Bytes.ofText "a:\n  '\x7b';\n\n;\n\n*/ d\n| e" := by
  intro front back hollow layOut
  have closed : Rules.openComment? front = none :=
    Rules.openComment?_eq (Rules.follows_reach (Rules.Position.follows_initial front))
  have ends : front.getLast? = some semicolon := rfl
  have live : front.getLast? ≠ some quote := by
    rw [ends]
    decide
  have free : ∀ last ∈ front.getLast?, last ∉ [space, tab, quote, slash] := by
    rw [ends]
    rintro _ ⟨⟩
    decide
  have hollows : ∃ tally, (hollow front).1 = .ok tally ∧ tally.finalDepth = 0 := ⟨_, rfl, rfl⟩
  have laysOut : ∃ tally, (layOut front).1 = .ok tally ∧ tally.finalDepth = 0 := ⟨_, rfl, rfl⟩
  rcases hollows with ⟨hollowTally, hollowOk, hollowLevel⟩
  rcases laysOut with ⟨tally, ok, level⟩
  rcases Pass.lenient_runs_in_pieces false front back with
    ⟨⟨first, second, hollowFirst, -, hollowPieces⟩, third, fourth, laidFirst, -, pieces⟩
  cases hollowOk.symm.trans hollowFirst
  cases ok.symm.trans laidFirst
  refine ⟨ends, closed, ?_, ?_, ?_⟩
  · exact congrArg Prod.snd (hollowPieces hollowLevel live)
  · exact congrArg Prod.snd ((pieces level closed).1 free)
  · exact (pieces level closed).2 live

end GrammarTidy
