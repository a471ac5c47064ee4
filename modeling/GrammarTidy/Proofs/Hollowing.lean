import GrammarTidy.Proofs.Blocks

/-! What a strict hollowing accepts: the texts that are made of plain bytes and
blocks. It leaves their plain bytes and empties their blocks, and it says of
every other text which brace stands alone. -/

namespace GrammarTidy

open Byte

theorem Cursor.Follows.foldl_read {text rest : Bytes} {cursor : Cursor}
    (follows : cursor.Follows text rest) :
    (rest.foldl Cursor.read cursor).Follows text [] := by
  induction rest generalizing cursor with
  | nil => exact follows
  | cons byte rest induction => exact induction follows.read

namespace Hollow

def slice (source : Bytes) (start stop : Nat) : Bytes := (source.take stop).drop start

/-- What is left of a text from a position on. A plain byte stays. A block keeps
its braces and the line breaks of its body. -/
inductive Reduces (source : Bytes) : Nat → Bytes → Prop
  | done : Reduces source source.length []
  | plain {position : Nat} {byte : UInt8} {reduced : Bytes} :
      source[position]? = some byte → roleAt source position = .plain →
      Reduces source (position + 1) reduced → Reduces source position (byte :: reduced)
  | block {opening closing : Nat} {reduced : Bytes} :
      Closes (roleAt source) opening closing → Reduces source (closing + 1) reduced →
      Reduces source opening
        (openBrace :: (slice source (opening + 1) closing).filter isLineBreak ++
          closeBrace :: reduced)

variable {source : Bytes}

/-! ## Slices -/

private theorem slice_self (position : Nat) : slice source position position = [] := by
  apply List.drop_eq_nil_of_le
  exact List.length_take_le _ _

private theorem slice_cons {start stop : Nat} {byte : UInt8} (here : source[start]? = some byte)
    (before : start < stop) : slice source start stop = byte :: slice source (start + 1) stop := by
  rcases List.getElem?_eq_some_iff.mp here with ⟨within, same⟩
  have inside : start < (source.take stop).length := by
    rw [List.length_take]
    exact Nat.lt_min.mpr ⟨before, within⟩
  rw [slice, List.drop_eq_getElem_cons inside, List.getElem_take, same]
  rfl

private theorem slice_append {start middle stop : Nat} (before : start ≤ middle)
    (after : middle ≤ stop) (within : middle ≤ source.length) :
    slice source start stop = slice source start middle ++ slice source middle stop := by
  have split : source.take stop = source.take middle ++ slice source middle stop := by
    have parts := List.take_append_drop middle (source.take stop)
    rw [List.take_take, Nat.min_eq_left after] at parts
    exact parts.symm
  have enough : start ≤ (source.take middle).length := by
    rw [List.length_take, Nat.min_eq_left within]
    exact before
  rw [slice, split, List.drop_append_of_le_length enough]
  rfl

/-! ## Texts made of blocks -/

private theorem exists_reduces {start stop : Nat} (blocks : Blocks (roleAt source) start stop)
    (whole : stop = source.length) : ∃ reduced, Reduces source start reduced := by
  induction blocks with
  | done position => exact ⟨[], whole ▸ .done⟩
  | @plain position stop here rest induction =>
      have within : position < source.length := by
        rw [← whole]
        exact rest.le
      rcases induction whole with ⟨reduced, reduces⟩
      exact ⟨_, .plain (List.getElem?_eq_getElem within) here reduces⟩
  | block opens body closes rest inner later =>
      rcases later whole with ⟨reduced, reduces⟩
      exact ⟨_, .block ⟨opens, body, closes⟩ reduces⟩

theorem blocks_iff_clear :
    Blocks (roleAt source) 0 source.length ↔
      stray? (roleAt source) source.length = none ∧
        unclosed? (roleAt source) source.length = none := by
  have follows := (Cursor.follows_initial source).foldl_read
  have offset := follows.offset_eq
  have depth := follows.tracks.depth
  rw [offset] at depth
  have unclosed : stray? (roleAt source) source.length = none →
      (unclosed? (roleAt source) source.length = none ↔
        depthBefore (roleAt source) source.length ≤ 0) := by
    intro clear
    rw [← offset] at clear
    have same := unclosed?_eq follows.tracks clear
    rw [offset] at same
    rw [same, Cursor.unclosedBlock, depth]
    simp
  constructor
  · intro blocks
    have above := blocks.depth.2
    have clear : stray? (roleAt source) source.length = none := by
      rw [stray?, Option.map_eq_none_iff, firstFrom_eq_none_iff]
      intro position _ within
      have := above (position + 1) (Nat.zero_le _) within
      rw [depthBefore_zero] at this
      simp [straysAt, Int.not_lt.mpr this]
    exact ⟨clear, (unclosed clear).mpr (Int.le_of_eq blocks.depth.1)⟩
  · rintro ⟨clear, closed⟩
    have above := depthBefore_nonneg clear
    have below := (unclosed clear).mp closed
    apply blocks_of_depth (Nat.zero_le _)
    · exact Int.le_antisymm below (above _ (Nat.le_refl _))
    · intro position _ within
      exact above position within

/-! ## How a text is read -/

section Reading

variable (settings : Settings)

theorem trace_cons (cursor : Cursor) (byte : UInt8) (rest : Bytes) :
    (scanner settings).trace (byte :: rest) cursor =
      if settings.strict && cursor.strays byte then
        { ending := .rejected cursor.strayClose }
      else
        ((scanner settings).trace rest (cursor.read byte)).after
          (if keeps cursor.nesting byte then [[byte]] else []) := by
  have move : (scanner settings).move cursor byte rest.head? =
      if settings.strict && cursor.strays byte then
        .reject cursor.strayClose
      else
        .one (if keeps cursor.nesting byte then [[byte]] else []) (cursor.read byte) := rfl
  rw [Scanner.trace, move]
  cases settings.strict && cursor.strays byte <;> rfl

/-- The cursor of a scan that stands at a position of a text, at some depth. -/
structure StandsAt (source : Bytes) (position : Nat) (depth : Int) (cursor : Cursor) :
    Prop where
  follows : cursor.Follows source (source.drop position)
  offset : cursor.offset = position
  depth : cursor.nesting.depth = depth

variable {position : Nat} {depth : Int} {cursor : Cursor} {byte : UInt8}

theorem StandsAt.roleAt_eq (stands : StandsAt source position depth cursor)
    (here : source[position]? = some byte) :
    cursor.nesting.role byte = roleAt source position := by
  have follows := stands.follows
  rcases List.getElem?_eq_some_iff.mp here with ⟨within, same⟩
  rw [List.drop_eq_getElem_cons within, same] at follows
  rw [← follows.roleAt_eq, stands.offset]

theorem StandsAt.trace_read (stands : StandsAt source position depth cursor)
    (here : source[position]? = some byte) (kept : cursor.strays byte = false) :
    StandsAt source (position + 1) (cursor.nesting.read byte).depth (cursor.read byte) ∧
      (scanner settings).trace (source.drop position) cursor =
        ((scanner settings).trace (source.drop (position + 1)) (cursor.read byte)).after
          (if keeps cursor.nesting byte then [[byte]] else []) := by
  have follows := stands.follows
  rcases List.getElem?_eq_some_iff.mp here with ⟨within, same⟩
  rw [List.drop_eq_getElem_cons within, same] at follows ⊢
  refine ⟨⟨follows.read, ?_, ?_⟩, ?_⟩
  · rw [Cursor.offset_read, stands.offset]
  · rw [Cursor.nesting_read]
  · rw [trace_cons, kept, Bool.and_false]
    rfl

theorem StandsAt.trace_plain (stands : StandsAt source position depth cursor)
    (here : source[position]? = some byte) (isPlain : roleAt source position = .plain) :
    ∃ next, StandsAt source (position + 1) depth next ∧
      (scanner settings).trace (source.drop position) cursor =
        ((scanner settings).trace (source.drop (position + 1)) next).after
          (if depth = 0 ∨ isLineBreak byte then [[byte]] else []) := by
  have role := (stands.roleAt_eq here).trans isPlain
  have kept : cursor.strays byte = false := by simp [Cursor.strays, role]
  rcases stands.trace_read settings here kept with ⟨standsNext, read⟩
  rw [Nesting.read_of_plain role, stands.depth] at standsNext
  refine ⟨_, standsNext, ?_⟩
  rw [read]
  simp [keeps, role, stands.depth]

theorem StandsAt.trace_opening (stands : StandsAt source position depth cursor)
    (opens : roleAt source position = .opening) :
    ∃ next, StandsAt source (position + 1) (depth + 1) next ∧
      (scanner settings).trace (source.drop position) cursor =
        ((scanner settings).trace (source.drop (position + 1)) next).after
          (if depth = 0 then [[openBrace]] else []) := by
  have here := openBrace_of_roleAt opens
  have role := (stands.roleAt_eq here).trans opens
  have kept : cursor.strays openBrace = false := by simp [Cursor.strays, role]
  rcases stands.trace_read settings here kept with ⟨standsNext, read⟩
  rw [Nesting.read_of_opening role, stands.depth] at standsNext
  refine ⟨_, standsNext, ?_⟩
  rw [read]
  simp [keeps, role, stands.depth]

theorem StandsAt.trace_closing (stands : StandsAt source position depth cursor)
    (closes : roleAt source position = .closing) (positive : 0 < depth) :
    ∃ next, StandsAt source (position + 1) (depth - 1) next ∧
      (scanner settings).trace (source.drop position) cursor =
        ((scanner settings).trace (source.drop (position + 1)) next).after
          (if depth = 1 then [[closeBrace]] else []) := by
  have here := closeBrace_of_roleAt closes
  have role := (stands.roleAt_eq here).trans closes
  have inner : 0 < cursor.nesting.depth := stands.depth ▸ positive
  rcases stands.trace_read settings here (Cursor.strays_of_positive inner _) with
    ⟨standsNext, read⟩
  rw [Nesting.read_of_closing role, stands.depth] at standsNext
  refine ⟨_, standsNext, ?_⟩
  rw [read]
  simp [keeps, role, stands.depth]

private theorem StandsAt.trace_body {start stop : Nat} (blocks : Blocks (roleAt source) start stop)
    (within : stop ≤ source.length) (positive : 0 < depth)
    (stands : StandsAt source start depth cursor) :
    ∃ next, StandsAt source stop depth next ∧
      (scanner settings).trace (source.drop start) cursor =
        ((scanner settings).trace (source.drop stop) next).after
          (((slice source start stop).filter isLineBreak).map ([·])) := by
  induction blocks generalizing depth cursor with
  | done position =>
      refine ⟨cursor, stands, ?_⟩
      rw [slice_self]
      rfl
  | @plain position stop isPlain rest induction =>
      have inside : position < source.length := Nat.lt_of_lt_of_le rest.le within
      have here := List.getElem?_eq_getElem inside
      rcases stands.trace_plain settings here isPlain with ⟨second, standsSecond, read⟩
      rcases induction within positive standsSecond with ⟨next, standsNext, put⟩
      refine ⟨next, standsNext, ?_⟩
      rw [read, put, Scanner.Trace.after_after, slice_cons here rest.le, List.filter_cons]
      cases isLineBreak source[position] <;> simp [Int.ne_of_gt positive]
  | @block opening closing stop opens body closes rest inner later =>
      have inside : closing < source.length := Nat.lt_of_lt_of_le rest.le within
      have deeper : 0 < depth + 1 := Int.lt_add_one_of_le (Int.le_of_lt positive)
      rcases stands.trace_opening settings opens with ⟨second, standsSecond, entered⟩
      rcases inner (Nat.le_of_lt inside) deeper standsSecond with ⟨third, standsThird, put⟩
      rcases standsThird.trace_closing settings closes deeper with ⟨fourth, standsFourth, left⟩
      rw [Int.add_sub_cancel] at standsFourth
      rcases later within positive standsFourth with ⟨next, standsNext, putLater⟩
      have breaks : (slice source opening stop).filter isLineBreak =
          (slice source (opening + 1) closing).filter isLineBreak ++
            (slice source (closing + 1) stop).filter isLineBreak := by
        rw [slice_cons (openBrace_of_roleAt opens) (Nat.lt_trans body.le rest.le),
          slice_append body.le (Nat.le_of_lt rest.le) (Nat.le_of_lt inside),
          slice_cons (closeBrace_of_roleAt closes) rest.le,
          List.filter_cons_of_neg (by decide), List.filter_append,
          List.filter_cons_of_neg (by decide)]
      have outer : depth ≠ 0 ∧ depth + 1 ≠ 1 := by omega
      refine ⟨next, standsNext, ?_⟩
      rw [entered, if_neg outer.1, Scanner.Trace.after_nil, put, left, if_neg outer.2,
        Scanner.Trace.after_nil, putLater, Scanner.Trace.after_after, breaks, List.map_append]

private theorem StandsAt.trace_reduces {reduced : Bytes} (reduces : Reduces source position reduced)
    (stands : StandsAt source position 0 cursor) :
    ∃ last, StandsAt source source.length 0 last ∧
      (scanner settings).trace (source.drop position) cursor =
        { chunks := reduced.map ([·]), ending := .finished last [] } := by
  induction reduces generalizing cursor with
  | done =>
      refine ⟨cursor, stands, ?_⟩
      rw [List.drop_length]
      rfl
  | plain here isPlain rest induction =>
      rcases stands.trace_plain settings here isPlain with ⟨next, standsNext, read⟩
      rcases induction standsNext with ⟨last, standsLast, put⟩
      refine ⟨last, standsLast, ?_⟩
      rw [read, put, if_pos (.inl rfl)]
      rfl
  | @block opening closing reduced pair rest induction =>
      have inside : closing < source.length :=
        (List.getElem?_eq_some_iff.mp (closeBrace_of_roleAt pair.closes)).1
      rcases stands.trace_opening settings pair.opens with ⟨second, standsSecond, entered⟩
      rcases standsSecond.trace_body settings pair.body (Nat.le_of_lt inside) (by decide) with
        ⟨third, standsThird, put⟩
      rcases standsThird.trace_closing settings pair.closes (by decide) with
        ⟨next, standsNext, left⟩
      rcases induction standsNext with ⟨last, standsLast, putLater⟩
      refine ⟨last, standsLast, ?_⟩
      rw [entered, if_pos rfl, put, left, if_pos (Int.zero_add 1), putLater]
      simp [Scanner.Trace.after]

theorem verdict_of_blocks (blocks : Blocks (roleAt source) 0 source.length) :
    ∃ reduced last, Reduces source 0 reduced ∧
      ((scanner settings).trace source {}).chunks = reduced.map ([·]) ∧
      (scanner settings).verdict source = .ok last := by
  have initial : StandsAt source 0 0 {} := ⟨Cursor.follows_initial source, rfl, rfl⟩
  rcases exists_reduces blocks rfl with ⟨reduced, reduces⟩
  rcases initial.trace_reduces settings reduces with ⟨last, stands, read⟩
  rw [List.drop_zero] at read
  have finished : ((scanner settings).trace source {}).ending = .finished last [] := by
    rw [read]
  have clear : (scanner settings).objection last = none := by
    simp [scanner, Cursor.unclosedBlock, stands.depth]
  refine ⟨reduced, last, reduces, by rw [read], ?_⟩
  rw [Scanner.verdict_of_finished finished, clear]

end Reading

/-! ## What a strict hollowing says -/

section Strict

variable {settings : Settings}

private theorem strict_ending (strict : settings.strict = true) {text rest : Bytes}
    {cursor : Cursor}
    (follows : cursor.Follows text rest) :
    ((scanner settings).trace rest cursor).ending =
      match firstFrom (straysAt (roleAt text)) cursor.offset text.length with
      | some offset => .rejected { kind := .strayClose, offset }
      | none => .finished (rest.foldl Cursor.read cursor) [] := by
  induction rest generalizing cursor with
  | nil =>
      rw [follows.offset_eq, firstFrom_self]
      rfl
  | cons byte rest induction =>
      have strays := straysAt_eq follows.tracks follows.roleAt_eq
      rcases drop_eq_cons follows.rest with ⟨-, -, within⟩
      rw [trace_cons, strict]
      cases stray : cursor.strays byte with
      | true =>
          rw [firstFrom_of_test (strays.trans stray) within]
          rfl
      | false =>
          rw [firstFrom_succ _ (strays.trans stray), ← cursor.offset_read byte]
          exact induction follows.read

theorem strict_verdict_of_not_blocks (strict : settings.strict = true)
    (broken : ¬Blocks (roleAt source) 0 source.length) :
    ∃ defect, (scanner settings).verdict source = .error defect ∧
      (stray? (roleAt source) source.length).or
        (unclosed? (roleAt source) source.length) = some defect := by
  have initial := Cursor.follows_initial source
  have follows := initial.foldl_read
  have ending : ((scanner settings).trace source {}).ending = _ := strict_ending strict initial
  cases first : firstFrom (straysAt (roleAt source)) 0 source.length with
  | some offset =>
      rw [first] at ending
      refine ⟨_, Scanner.verdict_of_rejected ending, ?_⟩
      rw [stray?, first]
      rfl
  | none =>
      rw [first] at ending
      have clear : stray? (roleAt source) source.length = none := by
        rw [stray?, first]
        rfl
      have unclosed : unclosed? (roleAt source) source.length =
          (source.foldl Cursor.read {}).unclosedBlock := by
        rw [← follows.offset_eq] at clear ⊢
        exact unclosed?_eq follows.tracks clear
      have objection : (scanner settings).objection (source.foldl Cursor.read {}) =
          (source.foldl Cursor.read {}).unclosedBlock := if_pos strict
      cases found : (source.foldl Cursor.read {}).unclosedBlock with
      | none =>
          rw [found] at unclosed
          exact absurd (blocks_iff_clear.mpr ⟨clear, unclosed⟩) broken
      | some defect =>
          refine ⟨defect, ?_, ?_⟩
          · rw [Scanner.verdict_of_finished ending, objection, found]
          · rw [clear, Option.none_or, unclosed, found]

private theorem exists_neverClosed {defect : Defect}
    (clear : stray? (roleAt source) source.length = none)
    (found : unclosed? (roleAt source) source.length = some defect) :
    ∃ first others, (first :: others).Pairwise (· < ·) ∧
      (∀ opening, opening ∈ first :: others ↔ NeverClosed (roleAt source) opening) ∧
      defect = { kind := .unclosedBlock (others.length + 1), offset := first } := by
  rcases Option.map_eq_some_iff.mp found with ⟨offset, first, rfl⟩
  have head : ((List.range source.length).filter
      (unmatchedAt (roleAt source) source.length)).head? = some offset := by
    rw [List.head?_filter, List.range_eq_range']
    exact first
  rcases List.head?_eq_some_iff.mp head with ⟨others, all⟩
  have count := length_filter_unmatchedAt clear
  rw [all, List.length_cons, Int.natCast_add] at count
  refine ⟨offset, others, ?_, ?_, ?_⟩
  · rw [← all]
    exact List.Pairwise.filter _ List.pairwise_lt_range
  · intro opening
    have closingWithin : ∀ closing, roleAt source closing = .closing →
        closing < source.length := by
      intro closing closes
      exact (List.getElem?_eq_some_iff.mp (closeBrace_of_roleAt closes)).1
    rw [← all, List.mem_filter, List.mem_range]
    constructor
    · rintro ⟨within, unmatched⟩
      exact (neverClosed_iff closingWithin within).mpr unmatched
    · intro alone
      have within := (List.getElem?_eq_some_iff.mp (openBrace_of_roleAt alone.1)).1
      exact ⟨within, (neverClosed_iff closingWithin within).mp alone⟩
  · rw [← count]
    rfl

end Strict

/-- A strict hollowing into an outlet that refuses nothing accepts exactly the
texts that are made of plain bytes and blocks, and puts their reduction byte by
byte. Of another text it reports the first brace that closes nothing or, if all
close something, the first that is never closed and how many those are. -/
theorem run_strict_eq_blocks {σ Refusal : Type} {outlet : Outlet (StateM σ) Refusal}
    (accepts : outlet.Accepts) (held : σ) (topLevelMarker : Bool) (source : Bytes) :
    let settings : Settings := { strict := true, topLevelMarker }
    let role := roleAt source
    let ran := (Hollow.run outlet settings source).run.run held
    ((∃ tally, ran.1 = .ok tally) ↔ Blocks role 0 source.length) ∧
      (Blocks role 0 source.length →
        ∃ reduced later event, Reduces source 0 reduced ∧
          (outlet.putAll (reduced.map ([·]))).run.run held = (.ok (), later) ∧
          ran.2 = ((outlet.note event).run later).2 ∧
          (Outlet.inMemory (Hollow.run · settings source)).2 = reduced) ∧
      (¬Blocks role 0 source.length →
        (∃ offset, ClosesNothing role offset ∧
          (∀ earlier < offset, ¬ClosesNothing role earlier) ∧
          ran.1 = .error (.faulty (Defect.locate ⟨.strayClose, offset⟩ source))) ∨
        ((∀ closing, ¬ClosesNothing role closing) ∧
          ∃ first others, (first :: others).Pairwise (· < ·) ∧
            (∀ opening, opening ∈ first :: others ↔ NeverClosed role opening) ∧
            ran.1 = .error (.faulty
              (Defect.locate ⟨.unclosedBlock (others.length + 1), first⟩ source)))) := by
  intro settings role ran
  rcases accepts.putAll ((scanner settings).trace source {}).chunks held with ⟨later, put⟩
  rcases (scanner settings).summarize_of_putAll source _ .blocksHollowed put with ⟨event, same⟩
  have ran_eq : ran = _ := same
  rw [Scanner.outcome, Scanner.result] at ran_eq
  by_cases blocks : Blocks role 0 source.length
  · rcases verdict_of_blocks settings blocks with ⟨reduced, last, reduces, chunks, verdict⟩
    rw [verdict] at ran_eq
    rw [chunks] at put
    refine ⟨⟨fun _ => blocks, fun _ => ?_⟩, fun _ => ?_, absurd blocks⟩
    · rw [ran_eq]
      exact ⟨_, rfl⟩
    · refine ⟨reduced, later, event, reduces, put, by rw [ran_eq], ?_⟩
      rw [inMemory_run, output, Scanner.Trace.output, chunks, ← List.flatMap_def]
      exact List.flatMap_singleton' reduced
  · have strict : settings.strict = true := rfl
    rcases strict_verdict_of_not_blocks strict blocks with ⟨defect, verdict, found⟩
    rw [verdict] at ran_eq
    have failed : ran.1 = .error (.faulty (defect.locate source)) := by
      rw [ran_eq]
      rfl
    refine ⟨⟨?_, fun made => absurd made blocks⟩, fun made => absurd made blocks, fun _ => ?_⟩
    · rintro ⟨tally, ok⟩
      cases failed.symm.trans ok
    · rw [failed]
      rcases Option.or_eq_some_iff.mp found with stray | ⟨clear, unclosed⟩
      · rcases Option.map_eq_some_iff.mp stray with ⟨offset, first, rfl⟩
        rcases closesNothing_of_first first with ⟨alone, before⟩
        exact .inl ⟨offset, alone, before, rfl⟩
      · rcases exists_neverClosed clear unclosed with ⟨first, others, sorted, all, rfl⟩
        refine .inr ⟨fun closing alone => ?_, first, others, sorted, all, rfl⟩
        have within := (List.getElem?_eq_some_iff.mp (closeBrace_of_roleAt alone.1)).1
        exact not_closesNothing_of_stray? clear closing within alone

/-- Blocks in blocks and quoted braces are taken apart as they should be, and one
brace more makes the text none of blocks. -/
theorem run_strict_eq_blocks_nested :
    let source := Bytes.ofText "'\x7ba\x7bb\n\x7b'\x7d\x7d\r\x7dc"
    let broken := Bytes.ofText "'\x7ba\x7bb\n\x7b'\x7d\x7d\r\x7d\x7bc"
    Outlet.memory.Accepts ∧ Blocks (roleAt source) 0 source.length ∧
      Reduces source 0 (Bytes.ofText "'\x7ba\x7b\n\r\x7dc") ∧
      ¬Blocks (roleAt broken) 0 broken.length := by
  intro source broken
  have accepted := run_strict_eq_blocks Outlet.memory_accepts #[] false source
  have rejected := run_strict_eq_blocks Outlet.memory_accepts #[] false broken
  have blocks : Blocks (roleAt source) 0 source.length := accepted.1.mp ⟨_, rfl⟩
  rcases accepted.2.1 blocks with ⟨reduced, later, event, reduces, -, -, put⟩
  have left : reduced = Bytes.ofText "'\x7ba\x7b\n\r\x7dc" := put.symm.trans rfl
  rw [left] at reduces
  refine ⟨Outlet.memory_accepts, blocks, reduces, fun blocks => ?_⟩
  rcases rejected.1.mpr blocks with ⟨tally, ok⟩
  cases ok

end Hollow

end GrammarTidy
