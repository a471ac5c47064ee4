import GrammarTidy.Proofs.OutputLengths
import GrammarTidy.Proofs.Refusals
import Mathlib.Algebra.Group.Nat.Defs

/-! How far the counters of a pass can go. What a pass puts is bounded by the bytes it
reads, and so are its depths, wherever it stops and whatever its sink does. So counters of
a fixed size suffice for a text that is small enough. -/

namespace GrammarTidy

/-! ## Depths -/

namespace Cursor

/-- A cursor whose depths are no greater than the number of bytes it has read, with `rest`
of a text of some size to read. -/
structure Bounded (size : Nat) (cursor : Cursor) (rest : Bytes) : Prop where
  room : cursor.offset + rest.length ≤ size
  lower : -(cursor.offset : Int) ≤ cursor.nesting.depth
  upper : cursor.nesting.depth ≤ cursor.offset
  deepest_nonneg : 0 ≤ cursor.deepest
  deepest_le : cursor.deepest ≤ cursor.offset

structure DepthsWithin (cursor : Cursor) (size : Nat) : Prop where
  depth : -(size : Int) ≤ cursor.nesting.depth ∧ cursor.nesting.depth ≤ size
  deepest : -(size : Int) ≤ cursor.deepest ∧ cursor.deepest ≤ size

variable {size : Nat} {cursor : Cursor} {byte : UInt8} {rest : Bytes}

theorem bounded_initial (source : Bytes) : Bounded source.length {} source where
  room := Nat.le_of_eq (Nat.zero_add _)
  lower := Int.le_refl 0
  upper := Int.le_refl 0
  deepest_nonneg := Int.le_refl 0
  deepest_le := Int.le_refl 0

theorem Bounded.skip (bounded : Bounded size cursor (byte :: rest)) :
    Bounded size (cursor.skip byte) rest := by
  rcases bounded with ⟨room, lower, upper, nonneg, most⟩
  constructor <;> simp only [Cursor.skip, Nesting.after, List.length_cons] at * <;> omega

theorem Bounded.read (bounded : Bounded size cursor (byte :: rest)) :
    Bounded size (cursor.read byte) rest := by
  rw [Cursor.read]
  cases cursor.nesting.role byte with
  | plain => exact bounded.skip
  | opening =>
      rcases bounded with ⟨room, lower, upper, nonneg, most⟩
      constructor <;>
        simp only [Cursor.skip, Cursor.enter, Nesting.enter, Nesting.after,
          List.length_cons] at * <;>
        omega
  | closing =>
      rcases bounded with ⟨room, lower, upper, nonneg, most⟩
      constructor <;>
        simp only [Cursor.skip, Cursor.leave, Nesting.leave, Nesting.after,
          List.length_cons] at * <;>
        omega

theorem Bounded.depthsWithin (bounded : Bounded size cursor rest) {most : Nat}
    (fits : size ≤ most) : cursor.DepthsWithin most := by
  rcases bounded with ⟨room, lower, upper, nonneg, deepest⟩
  constructor <;> omega

private theorem Bounded.depthsWithin_read (bounded : Bounded size cursor rest) {most : Nat}
    (within : cursor.offset < most) (byte : UInt8) : (cursor.read byte).DepthsWithin most := by
  have here : Bounded most cursor [byte] := { bounded with room := within }
  exact here.read.depthsWithin (Nat.le_refl most)

end Cursor

theorem Scanner.going_of_mem {State : Type} {scanner : Scanner State}
    (going : State → Bytes → Prop)
    (moves : ∀ state byte rest, going state (byte :: rest) →
      (scanner.move state byte rest.head?).Goes (fun _ => True) going rest)
    {rest : Bytes} {state visited : State} (start : going state rest)
    (member : visited ∈ scanner.states rest state) : ∃ later, going visited later := by
  have journey : Journey going (fun _ _ => True) state (scanner.states rest state) :=
    journey_of_moves moves start
  exact journey.going visited member

section Cursors

variable (settings : Settings) (source : Bytes)

def Hollow.cursors : List Cursor := (scanner settings).states source {}

def Declarations.cursors : List Cursor :=
  ((scanner settings).states source {}).map Position.cursor

def Rules.cursors : List Cursor :=
  ((scanner settings).states source {}).map Position.cursor

def Pass.cursors : Pass → List Cursor
  | .hollow | .job .hollow => Hollow.cursors settings source
  | .declarations => Declarations.cursors settings source
  | .rules => Rules.cursors settings source
  | .tidy | .job .tidy =>
      Declarations.cursors settings source ++
        match Declarations.result settings source with
        | .ok (some start, _) => Rules.cursors settings (source.drop start)
        | _ => []

variable {settings source} {cursor : Cursor}

theorem Hollow.bounded_of_mem (member : cursor ∈ cursors settings source) :
    ∃ rest, cursor.Bounded source.length rest := by
  refine Scanner.going_of_mem (Cursor.Bounded source.length) ?moves
    (Cursor.bounded_initial source) member
  intro cursor byte rest bounded
  dsimp only [scanner]
  cases settings.strict && cursor.strays byte with
  | true => trivial
  | false => exact ⟨trivial, bounded.read⟩

theorem Declarations.bounded_of_mem (member : cursor ∈ cursors settings source) :
    ∃ rest, cursor.Bounded source.length rest := by
  rcases List.mem_map.mp member with ⟨position, visited, rfl⟩
  refine Scanner.going_of_mem (fun position => position.cursor.Bounded source.length) ?moves
    (Cursor.bounded_initial source) visited
  intro position byte rest bounded
  rw [move_eq]
  cases settings.strict && position.cursor.strays byte with
  | true => trivial
  | false => cases position.endsMarker settings byte <;> exact ⟨trivial, bounded.read⟩

theorem Rules.bounded_of_mem (member : cursor ∈ cursors settings source) :
    ∃ rest, cursor.Bounded source.length rest := by
  rcases List.mem_map.mp member with ⟨position, visited, rfl⟩
  refine Scanner.going_of_mem (fun position => position.cursor.Bounded source.length) ?moves
    (Cursor.bounded_initial source) visited
  intro position byte rest bounded
  have way := moves settings position byte rest
  generalize (scanner settings).move position byte rest.head? = move at way ⊢
  cases way with
  | close inside => exact ⟨trivial, bounded.skip.skip⟩
  | skip inside going => exact ⟨trivial, bounded.skip⟩
  | stray outside strict strays => trivial
  | enter outside live => exact ⟨trivial, bounded.skip.skip⟩
  | read outside ordinary => exact ⟨trivial, bounded.read⟩

theorem Pass.bounded_of_mem {pass : Pass} (member : cursor ∈ pass.cursors settings source) :
    ∃ size rest, size ≤ source.length ∧ cursor.Bounded size rest := by
  have whole : (∃ rest, cursor.Bounded source.length rest) →
      ∃ size rest, size ≤ source.length ∧ cursor.Bounded size rest :=
    fun ⟨rest, bounded⟩ => ⟨source.length, rest, Nat.le_refl _, bounded⟩
  match pass with
  | .hollow | .job .hollow => exact whole (Hollow.bounded_of_mem member)
  | .declarations => exact whole (Declarations.bounded_of_mem member)
  | .rules => exact whole (Rules.bounded_of_mem member)
  | .tidy | .job .tidy =>
      rcases List.mem_append.mp member with first | second
      · exact whole (Declarations.bounded_of_mem first)
      · split at second
        · next start declared found =>
            rcases Rules.bounded_of_mem second with ⟨rest, bounded⟩
            exact ⟨_, rest, (List.drop_sublist start source).length_le, bounded⟩
        · cases second

end Cursors

/-! ## Runs -/

section Scripts

variable (settings : Settings) (source : Bytes)

theorem Hollow.output_script :
    (Hollow.script settings source).output = Hollow.output settings source :=
  congrArg List.flatten (Scanner.chunks_script _ source _ _)

theorem Declarations.output_script :
    (Declarations.script settings source).output = Declarations.output settings source :=
  congrArg List.flatten (Scanner.chunks_script _ source _ _)

theorem Rules.output_script :
    (Rules.script settings source).output = Rules.output settings source :=
  congrArg List.flatten (Scanner.chunks_script _ source _ _)

theorem Tidy.script_eq :
    (Tidy.script settings source).result = Tidy.result settings source ∧
      (Tidy.script settings source).output = Tidy.output settings source :=
  Prod.mk.inj ((Mode.tidy.inMemory_run settings source).symm.trans
    (Tidy.inMemory_run settings source))

theorem Pass.length_output_le (pass : Pass) :
    (pass.script settings source).output.length ≤ 3 * source.length := by
  match pass with
  | .hollow | .job .hollow =>
      have most := Hollow.length_output_le settings source
      rw [← Hollow.output_script] at most
      exact Nat.le_trans most (Nat.le_mul_of_pos_left _ (by decide))
  | .declarations =>
      have most := Tidy.length_output_le settings source
      rw [Tidy.output, List.length_append, ← Declarations.output_script] at most
      exact Nat.le_of_add_right_le most
  | .rules =>
      have most := Rules.length_output_le settings source
      rw [← Rules.output_script] at most
      exact Nat.le_trans most (Rules.layoutBound_le source)
  | .tidy | .job .tidy =>
      have most := Tidy.length_output_le settings source
      rw [← (Tidy.script_eq settings source).2] at most
      exact most

variable {settings source}

theorem Pass.counts_of_script {pass : Pass} {result : pass.Result}
    (ok : (pass.script settings source).result = .ok result) :
    (pass.tally result).bytesIn ≤ source.length ∧
      (pass.tally result).bytesOut = (pass.script settings source).output.length := by
  match pass with
  | .hollow | .job .hollow =>
      have counts := (Hollow.counts_of_result ok).1
      rw [← Hollow.output_script] at counts
      exact ⟨Nat.le_of_eq counts.bytesIn, counts.bytesOut⟩
  | .declarations =>
      rcases result with ⟨start, tally⟩
      rcases Declarations.counts_of_result ok with ⟨marked, counts, -⟩
      rw [← Declarations.output_script] at counts
      refine ⟨?_, counts.bytesOut⟩
      change tally.bytesIn ≤ _
      rw [counts.bytesIn]
      cases start with
      | none => exact Nat.le_refl _
      | some start => exact Declarations.markerEnd?_le marked.symm
  | .rules =>
      have counts := (Rules.counts_of_result ok).1
      rw [← Rules.output_script] at counts
      exact ⟨Nat.le_of_eq counts.bytesIn, counts.bytesOut⟩
  | .tidy | .job .tidy =>
      have counts := Tidy.counts_of_result ((Tidy.script_eq settings source).1.symm.trans ok)
      rw [← (Tidy.script_eq settings source).2] at counts
      exact ⟨Nat.le_of_eq counts.bytesIn, counts.bytesOut⟩

end Scripts

section Sinks

variable {σ Refusal : Type} (pass : Pass) (settings : Settings) (source : Bytes)
  (put : Bytes → σ → Except Refusal Unit × σ) (held : σ)

/-- What a pass into a sink answers, and the number of bytes that the sink has taken. -/
def Pass.countedAnswer : Except (Failure Refusal) pass.Result × Nat :=
  (((pass.run (Outlet.ofPut put).counted settings source).run.run 0).run held).1

theorem Pass.countedAnswer_eq :
    let delivery := deliver put (pass.script settings source).chunks held
    pass.countedAnswer settings source put held =
      (delivery.answer (pass.script settings source).result,
        delivery.accepted.flatten.length) := by
  have counted := (Outlet.behaves_ofPut put).counted.play (pass.script settings source) (0, held)
  rw [deliver_countedPut, Observation.observe_layer, Nat.zero_add] at counted
  simp only [Prod.mk.injEq] at counted
  rw [countedAnswer, Pass.run_eq_play]
  exact Prod.ext counted.1 counted.2.1

theorem length_accepted_le (chunks : List Bytes) :
    (deliver put chunks held).accepted.flatten.length ≤ chunks.flatten.length := by
  rcases deliver_cases put chunks held with ⟨-, all⟩ | ⟨chunk, rest, before, refusal, -, parts, -⟩
  · exact Nat.le_of_eq (congrArg (List.length ·.flatten) all)
  · have whole := congrArg (List.length ·.flatten) parts
    rw [whole, List.flatten_append, List.length_append]
    exact Nat.le_add_right _ _

/-- The most that a sink can take from a scan of the declarations. It is more than the
text only if the scan ends well and tells of a marker. -/
def Declarations.mostBytes : Except (Failure Refusal) (Option Nat × Tally) → Nat
  | .ok (some _, _) => source.length + 2
  | _ => source.length

theorem Declarations.length_accepted_le :
    let delivery := deliver put (script settings source).chunks held
    delivery.accepted.flatten.length ≤
      mostBytes source (delivery.answer (result settings source)) := by
  have chunks : (script settings source).chunks = ((scanner settings).trace source {}).chunks :=
    Scanner.chunks_script _ source _ _
  have most := length_output_le settings source
  rw [← output_script] at most
  dsimp only
  rw [Delivery.answer]
  rcases deliver_cases put (script settings source).chunks held with
    ⟨taken, all⟩ | ⟨chunk, rest, before, refusal, refused, parts, -⟩
  · rw [taken, all]
    rcases found : result settings source with fault | ⟨_ | start, tally⟩
    · rw [found] at most
      exact most
    · rw [found] at most
      exact most
    · rw [found] at most
      exact Nat.le_trans most.2 (Nat.add_le_add_right most.1 2)
  · rw [refused]
    exact length_flatten_le_of_trace settings (chunks.symm.trans parts)

def Pass.mostBytes : (pass : Pass) → Except (Failure Refusal) pass.Result → Nat
  | .hollow, _ | .job .hollow, _ => source.length
  | .declarations, answer => Declarations.mostBytes source answer
  | .rules, _ => Rules.layoutBound source
  | .tidy, _ | .job .tidy, _ => 3 * source.length

theorem Pass.taken_le :
    let (answer, taken) := pass.countedAnswer settings source put held
    taken ≤ pass.mostBytes source answer := by
  have taken := length_accepted_le put held (pass.script settings source).chunks
  rw [countedAnswer_eq]
  match pass with
  | .hollow | .job .hollow =>
      have most := Hollow.length_output_le settings source
      rw [← Hollow.output_script] at most
      exact Nat.le_trans taken most
  | .declarations => exact Declarations.length_accepted_le settings source put held
  | .rules =>
      have most := Rules.length_output_le settings source
      rw [← Rules.output_script] at most
      exact Nat.le_trans taken most
  | .tidy | .job .tidy =>
      exact Nat.le_trans taken (Pass.length_output_le settings source .tidy)

end Sinks

/-! ## Words -/

/-- A signed word of some bits holds a number. -/
def FitsSigned (bits : Nat) (value : Int) : Prop := (BitVec.ofInt bits value).toInt = value

def FitsUnsigned (bits value : Nat) : Prop := (BitVec.ofNat bits value).toNat = value

private theorem fitsUnsigned_of_le {bits value : Nat} (small : value ≤ 2 ^ bits - 1) :
    FitsUnsigned bits value := by
  rw [FitsUnsigned, BitVec.toNat_ofNat]
  exact Nat.mod_eq_of_lt (Nat.lt_of_le_pred (Nat.two_pow_pos bits) small)

private theorem fitsSigned_of_le {bits most : Nat} {value : Int} (small : most ≤ 2 ^ (bits - 1) - 1)
    (within : -(most : Int) ≤ value ∧ value ≤ most) : FitsSigned bits value := by
  have positive := Nat.two_pow_pos (bits - 1)
  rw [FitsSigned, BitVec.toInt_ofInt]
  cases bits with
  | zero =>
      have zero : value = 0 := by
        rw [Nat.pow_zero] at small
        omega
      subst zero
      rfl
  | succ bits =>
      rw [Nat.add_sub_cancel] at small positive
      apply Int.bmod_eq_of_le_mul_two <;> rw [Nat.pow_succ] <;> omega

structure Cursor.DepthsFit (cursor : Cursor) (bits : Nat) : Prop where
  depth : FitsSigned bits cursor.nesting.depth
  deepest : FitsSigned bits cursor.deepest

theorem Cursor.DepthsWithin.fit {cursor : Cursor} {size bits : Nat}
    (within : cursor.DepthsWithin size) (small : size ≤ 2 ^ (bits - 1) - 1) :
    cursor.DepthsFit bits where
  depth := fitsSigned_of_le small within.depth
  deepest := fitsSigned_of_le small within.deepest

/-- Something holds of the cursor at every step of a pass: before the step, and when the
byte to come was read, whether the scan goes on behind it or not. -/
def Pass.Throughout (pass : Pass) (settings : Settings) (source : Bytes)
    (holds : Cursor → Prop) : Prop :=
  ∀ cursor ∈ pass.cursors settings source, holds cursor ∧
    (cursor.offset < source.length → ∀ byte, holds (cursor.read byte))

theorem Pass.throughout_depthsWithin (pass : Pass) (settings : Settings) (source : Bytes) :
    pass.Throughout settings source (·.DepthsWithin source.length) := by
  intro cursor member
  rcases Pass.bounded_of_mem member with ⟨size, rest, fits, bounded⟩
  exact ⟨bounded.depthsWithin fits, bounded.depthsWithin_read⟩

theorem Pass.Throughout.imp {pass : Pass} {settings : Settings} {source : Bytes}
    {first second : Cursor → Prop} (throughout : pass.Throughout settings source first)
    (implies : ∀ cursor, first cursor → second cursor) :
    pass.Throughout settings source second := by
  intro cursor member
  rcases throughout cursor member with ⟨here, read⟩
  exact ⟨implies _ here, fun within byte => implies _ (read within byte)⟩

theorem Pass.counts_le {σ Refusal : Type} (pass : Pass) (settings : Settings) (source : Bytes)
    (put : Bytes → σ → Except Refusal Unit × σ) (held : σ) :
    let (answer, taken) := pass.countedAnswer settings source put held
    taken ≤ 3 * source.length ∧ ∀ result, answer = .ok result →
      (pass.tally result).bytesIn ≤ source.length ∧ (pass.tally result).bytesOut = taken := by
  rw [countedAnswer_eq]
  dsimp only
  constructor
  · exact Nat.le_trans (length_accepted_le put held _) (pass.length_output_le settings source)
  · intro result ok
    rw [Delivery.answer] at ok
    rcases deliver_cases put (pass.script settings source).chunks held with
      ⟨taken, all⟩ | ⟨chunk, rest, before, refusal, refused, -, -⟩
    · rw [taken] at ok
      rw [all]
      apply Pass.counts_of_script
      cases told : (pass.script settings source).result with
      | ok value =>
          rw [told] at ok
          cases ok
          rfl
      | error fault =>
          rw [told] at ok
          cases ok
    · rw [refused] at ok
      cases ok

/-- How far the counters of a pass go over a text, before any sink and whether the pass
ends well or not. A sink takes at most the text itself from a hollowing, two bytes more
from declarations with a marker, the text with its separators spelled out from a layout,
and three times the text from a tidying. The depths are never greater than the text is
long. So if words of some bits hold the length of the text as a signed number and three
times the length as an unsigned one, every number that a pass comes through can be counted
in such words. A sink may refuse any chunk, so this is said of the bytes before each of
them. -/
theorem Pass.run_within_bounds (pass : Pass) (settings : Settings) (source : Bytes) :
    (∀ (σ Refusal : Type) (put : Bytes → σ → Except Refusal Unit × σ) (held : σ),
      let (answer, taken) := pass.countedAnswer settings source put held
      taken ≤ pass.mostBytes source answer) ∧
    pass.Throughout settings source (·.DepthsWithin source.length) ∧
    ∀ bits, source.length ≤ 2 ^ (bits - 1) - 1 → 3 * source.length ≤ 2 ^ bits - 1 →
      (∀ (σ Refusal : Type) (put : Bytes → σ → Except Refusal Unit × σ) (held : σ),
        let (answer, taken) := pass.countedAnswer settings source put held
        FitsUnsigned bits taken ∧ ∀ result, answer = .ok result →
          FitsUnsigned bits (pass.tally result).bytesIn ∧
            FitsUnsigned bits (pass.tally result).bytesOut) ∧
      pass.Throughout settings source (·.DepthsFit bits) := by
  have depths := pass.throughout_depthsWithin settings source
  refine ⟨fun σ Refusal put held => pass.taken_le settings source put held, depths, ?_⟩
  intro bits signed unsigned
  refine ⟨?_, depths.imp fun cursor within => within.fit signed⟩
  intro σ Refusal put held
  rcases pass.counts_le settings source put held with ⟨most, counts⟩
  refine ⟨fitsUnsigned_of_le (Nat.le_trans most unsigned), ?_⟩
  intro result ok
  rcases counts result ok with ⟨bytesIn, bytesOut⟩
  constructor
  · apply fitsUnsigned_of_le
    omega
  · apply fitsUnsigned_of_le
    omega

/-- A text of nine bytes, with a marker, a block and two separators, whose counters fit into
words of eight bits. -/
theorem Pass.run_within_bounds_in_octets :
    let source := Bytes.ofText "%% a|b\x7b\x7d;"
    let tally : Tally :=
      { bytesIn := 9, bytesOut := 12, maxDepth := 1, finalDepth := 0, rulesOffset := some 2 }
    source.length ≤ 2 ^ (8 - 1) - 1 ∧ 3 * source.length ≤ 2 ^ 8 - 1 ∧
      Pass.tidy.countedAnswer {} source memoryPut #[] = (.ok tally, 12) ∧
      12 ≤ 3 * source.length ∧ FitsUnsigned 8 tally.bytesIn ∧ FitsUnsigned 8 tally.bytesOut ∧
      Pass.tidy.Throughout {} source (·.DepthsFit 8) := by
  intro source tally
  have signed : source.length ≤ 2 ^ (8 - 1) - 1 := by decide
  have unsigned : 3 * source.length ≤ 2 ^ 8 - 1 := by decide
  have answer : Pass.tidy.countedAnswer {} source memoryPut #[] = (.ok tally, 12) := rfl
  rcases Pass.run_within_bounds .tidy {} source with ⟨bytes, -, words⟩
  rcases words 8 signed unsigned with ⟨counts, depths⟩
  have taken := bytes _ _ memoryPut #[]
  have held := counts _ _ memoryPut #[]
  rw [answer] at taken held
  rcases held.2 tally rfl with ⟨bytesIn, bytesOut⟩
  exact ⟨signed, unsigned, answer, taken, bytesIn, bytesOut, depths⟩

end GrammarTidy
