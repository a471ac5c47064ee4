import GrammarTidy.Proofs.Agreement
import GrammarTidy.Proofs.Diagnosis
import GrammarTidy.Proofs.Strictness
import GrammarTidy.Proofs.Tallies

/-! Hollowing a text once leaves nothing to hollow, whether its braces match or not.
The scan of the hollowed text stays in step with the scan that made it, so that it
keeps every byte; what such a text looks like is then read off position by
position. -/

namespace GrammarTidy

open Byte

/-! ## Texts with nothing to hollow -/

/-- Hollowing keeps every byte of a text that is read from a nesting on. -/
def Intact : Nesting → Bytes → Prop
  | _, [] => True
  | nesting, byte :: rest =>
      Hollow.keeps nesting byte = true ∧ Intact (nesting.read byte) rest

private theorem hollowed_of_intact {nesting : Nesting} {text : Bytes}
    (intact : Intact nesting text) :
    hollowed nesting text = text := by
  induction text generalizing nesting with
  | nil => rfl
  | cons byte rest induction => rw [hollowed, if_pos intact.1, induction intact.2]

/-- The hollowed text has nothing to hollow, and its scan ends in step with the one
that made it. -/
theorem intact_hollowed (nesting : Nesting) (text : Bytes) :
    Intact nesting.clamp (hollowed nesting text) ∧
      (hollowed nesting text).foldl Nesting.read nesting.clamp =
        (text.foldl Nesting.read nesting).clamp := by
  induction text generalizing nesting with
  | nil => exact ⟨trivial, rfl⟩
  | cons byte rest induction =>
      have later := induction (nesting.read byte)
      rw [hollowed, List.foldl_cons]
      cases keeps : Hollow.keeps nesting byte with
      | false =>
          rw [Nesting.clamp_read_of_drops keeps] at later
          exact later
      | true =>
          rcases Nesting.keeps_clamp keeps with ⟨again, step⟩
          rw [← step] at later
          exact ⟨⟨again, later.1⟩, later.2⟩

/-! ## Texts in normal form -/

def nestingAt (text : Bytes) (position : Nat) : Nesting where
  depth := depthBefore (roleAt text) position
  quoted := quotedAt text position

theorem Cursor.Follows.nesting_eq {cursor : Cursor} {text rest : Bytes}
    (follows : cursor.Follows text rest) : cursor.nesting = nestingAt text cursor.offset := by
  rw [nestingAt, ← follows.tracks.depth, ← follows.quoted]

private theorem Cursor.Follows.foldl_nesting {cursor : Cursor} {text rest : Bytes}
    (follows : cursor.Follows text rest) :
    rest.foldl Nesting.read cursor.nesting = nestingAt text text.length := by
  induction rest generalizing cursor with
  | nil =>
      rw [← follows.offset_eq]
      exact follows.nesting_eq
  | cons byte rest induction =>
      rw [List.foldl_cons, ← cursor.nesting_read byte]
      exact induction follows.read

private theorem role_nestingAt {text : Bytes} {position : Nat} {byte : UInt8}
    (here : text[position]? = some byte) :
    (nestingAt text position).role byte = roleAt text position := by
  simp [roleAt, Nesting.role, nestingAt, here]

def Hollow.Normal (text : Bytes) : Prop :=
  ∀ position byte, text[position]? = some byte → keeps (nestingAt text position) byte = true

private theorem Intact.keeps_nestingAt {cursor : Cursor} {text rest : Bytes}
    (intact : Intact cursor.nesting rest) (follows : cursor.Follows text rest)
    {position : Nat} {byte : UInt8} (ahead : cursor.offset ≤ position)
    (here : text[position]? = some byte) :
    Hollow.keeps (nestingAt text position) byte = true := by
  induction rest generalizing cursor with
  | nil =>
      rw [follows.offset_eq, ← List.getElem?_eq_none_iff] at ahead
      cases ahead.symm.trans here
  | cons first rest induction =>
      rcases Nat.eq_or_lt_of_le ahead with rfl | later
      · rcases drop_eq_cons follows.rest with ⟨head, -, -⟩
        cases head.symm.trans here
        rw [← follows.nesting_eq]
        exact intact.1
      · apply induction _ follows.read
        · rw [cursor.offset_read first]
          exact later
        · rw [cursor.nesting_read first]
          exact intact.2

theorem Intact.normal {text : Bytes} (intact : Intact {} text) : Hollow.Normal text := by
  intro position byte here
  exact @Intact.keeps_nestingAt {} text text intact (Cursor.follows_initial text) position byte
    (Nat.zero_le _) here

namespace Hollow.Normal

variable {text : Bytes} (normal : Normal text) {position : Nat}

include normal

theorem depth_of_opening (opens : roleAt text position = .opening) :
    depthBefore (roleAt text) position = 0 := by
  have here := openBrace_of_roleAt opens
  have kept := normal position _ here
  rw [keeps, role_nestingAt here, opens] at kept
  exact of_decide_eq_true kept

theorem depth_of_closing (closes : roleAt text position = .closing) :
    depthBefore (roleAt text) position = 1 := by
  have here := closeBrace_of_roleAt closes
  have kept := normal position _ here
  rw [keeps, role_nestingAt here, closes] at kept
  exact of_decide_eq_true kept

theorem isLineBreak_of_plain {byte : UInt8} (here : text[position]? = some byte)
    (isPlain : roleAt text position = .plain)
    (inner : depthBefore (roleAt text) position ≠ 0) : isLineBreak byte = true := by
  have kept := normal position _ here
  rw [keeps, role_nestingAt here, isPlain] at kept
  simpa [nestingAt, inner] using kept

theorem depth_eq (position : Nat) :
    depthBefore (roleAt text) position = 0 ∨ depthBefore (roleAt text) position = 1 := by
  induction position with
  | zero => exact .inl rfl
  | succ position induction =>
      rw [depthBefore_succ]
      cases role : roleAt text position with
      | opening => exact .inr (by rw [normal.depth_of_opening role]; rfl)
      | closing => exact .inl (by rw [normal.depth_of_closing role]; rfl)
      | plain => exact induction

theorem depth_inside {opening : Nat} (opens : roleAt text opening = .opening)
    (after : opening < position)
    (unclosed : ∀ between, opening < between → between < position →
      roleAt text between ≠ .closing) : depthBefore (roleAt text) position = 1 := by
  induction position, after using Nat.le_induction with
  | base => rw [depthBefore_succ, opens, normal.depth_of_opening opens]; rfl
  | succ position after induction =>
      have inside := induction fun between behind before =>
        unclosed between behind (Nat.lt_succ_of_lt before)
      rw [depthBefore_succ]
      cases role : roleAt text position with
      | opening => cases inside.symm.trans (normal.depth_of_opening role)
      | closing => exact absurd role (unclosed position after (Nat.lt_succ_self _))
      | plain => exact inside

theorem isLineBreak_inside {opening : Nat} {byte : UInt8}
    (opens : roleAt text opening = .opening) (after : opening < position)
    (unclosed : ∀ between, opening < between → between ≤ position →
      roleAt text between ≠ .closing)
    (here : text[position]? = some byte) : isLineBreak byte = true := by
  have inside := normal.depth_inside opens after fun between behind before =>
    unclosed between behind (Nat.le_of_lt before)
  have isPlain : roleAt text position = .plain := by
    cases role : roleAt text position with
    | opening => cases inside.symm.trans (normal.depth_of_opening role)
    | closing => exact absurd role (unclosed position after (Nat.le_refl _))
    | plain => rfl
  exact normal.isLineBreak_of_plain here isPlain (by rw [inside]; decide)

end Hollow.Normal

/-! ## Scans of a text in normal form -/

namespace Hollow

variable {settings : Settings} {text : Bytes} {last : Cursor}

theorem inMemory_of_verdict (ok : (scanner settings).verdict text = .ok last) :
    Outlet.inMemory (Hollow.run · settings text) =
      (.ok (last.tally text (output settings text).length), output settings text) := by
  rw [inMemory_run, result, Scanner.result, ok]

theorem nesting_of_verdict (ok : (scanner settings).verdict text = .ok last) :
    last.nesting = text.foldl Nesting.read {} := by
  have follows := (tracks_of_verdict ok).1
  have read : text.foldl Nesting.read {} = _ := (Cursor.follows_initial text).foldl_nesting
  rw [read, ← follows.offset_eq]
  exact follows.nesting_eq

private theorem follows_of_mem_states {rest : Bytes} {cursor visited : Cursor}
    (follows : cursor.Follows text rest)
    (member : visited ∈ (scanner settings).states rest cursor) :
    ∃ later, visited.Follows text later := by
  induction rest generalizing cursor with
  | nil =>
      rw [Scanner.states, List.mem_singleton] at member
      exact ⟨[], member ▸ follows⟩
  | cons byte rest induction =>
      rw [Scanner.states, List.mem_cons] at member
      rcases member with rfl | member
      · exact ⟨_, follows⟩
      · dsimp only [scanner] at member
        cases rejects : settings.strict && cursor.strays byte with
        | true =>
            rw [rejects] at member
            cases member
        | false =>
            rw [rejects] at member
            exact induction follows.read member

theorem Normal.not_dips (normal : Normal text) (settings : Settings) :
    ¬(scanner settings).Dips (·.nesting.depth) text := by
  rintro ⟨visited, member, (negative : visited.nesting.depth < 0)⟩
  rcases follows_of_mem_states (Cursor.follows_initial text) member with ⟨later, follows⟩
  have reached := follows.tracks.depth
  rcases normal.depth_eq visited.offset with zero | one
  · omega
  · omega

theorem Normal.maxDepth_le (normal : Normal text)
    (ok : (scanner settings).verdict text = .ok last) : last.deepest ≤ 1 := by
  rcases (tracks_of_verdict ok).2.1 with ⟨position, -, reached⟩
  rcases normal.depth_eq position with zero | one
  · omega
  · omega

theorem Normal.inMemory_strict (normal : Normal text) {topLevelMarker : Bool}
    (ok : (scanner { topLevelMarker }).verdict text = .ok last) :
    Outlet.inMemory (Hollow.run · { strict := true, topLevelMarker } text) =
      match last.unclosedBlock with
      | some defect => (.error (defect.locate text), output { topLevelMarker } text)
      | none => Outlet.inMemory (Hollow.run · { topLevelMarker } text) := by
  have cutting := cuts topLevelMarker
  rcases cutting.trace text {} cutting.sound with along | short
  · rw [inMemory_run, inMemory_run]
    exact along.outcome_eq cutting (tolerant rfl) ok
      fun written cursor => cursor.tally text written
  · exact absurd short.below (normal.not_dips _)

/-! ## Hollowing twice -/

section Twice

variable (lenient : settings.strict = false) (source : Bytes)

include lenient

theorem intact_output : Intact {} (output settings source) := by
  have left : output settings source = _ := output_eq_hollowed lenient source {}
  rw [left]
  exact (intact_hollowed {} source).1

theorem output_output : output settings (output settings source) = output settings source :=
  (output_eq_hollowed lenient _ {}).trans (hollowed_of_intact (intact_output lenient source))

private theorem depth_of_verdicts {first : Cursor}
    (ok : (scanner settings).verdict source = .ok first)
    (again : (scanner settings).verdict (output settings source) = .ok last) :
    last.nesting.depth = if 0 < first.nesting.depth then 1 else 0 := by
  have left : output settings source = _ := output_eq_hollowed lenient source {}
  rw [nesting_of_verdict again, left, nesting_of_verdict ok]
  exact congrArg Nesting.depth (intact_hollowed {} source).2

end Twice

end Hollow

/-- Hollowing brings every text to its normal form at once, also one whose braces do
not match. What it leaves is left as it is by hollowing it again. Its depth is zero or
one, and its blocks hold line breaks only. A strict hollowing accepts it, unless the
text it was made of ended inside a block. -/
theorem Hollow.run_reaches_normal_form (topLevelMarker : Bool) (source : Bytes) :
    let lenient : Settings := { topLevelMarker }
    let strict : Settings := { strict := true, topLevelMarker }
    ∃ tally again left,
      Outlet.inMemory (Hollow.run · lenient source) = (.ok tally, left) ∧
      Outlet.inMemory (Hollow.run · lenient left) = (.ok again, left) ∧
      again.maxDepth ≤ 1 ∧
      ¬(scanner lenient).Dips (·.nesting.depth) left ∧
      (∀ opening position byte, roleAt left opening = .opening → opening < position →
        (∀ between, opening < between → between ≤ position → roleAt left between ≠ .closing) →
        left[position]? = some byte → byte = carriageReturn ∨ byte = newline) ∧
      (tally.finalDepth ≤ 0 →
        Outlet.inMemory (Hollow.run · strict left) = (.ok again, left)) ∧
      (0 < tally.finalDepth →
        ∃ fault, Outlet.inMemory (Hollow.run · strict left) = (.error fault, left) ∧
          fault.kind = .unclosedBlock 1) := by
  intro lenient strict
  have normal := (@intact_output lenient rfl source).normal
  have fixed := @output_output lenient rfl source
  rcases (@tolerant lenient rfl).verdict source with ⟨first, ok⟩
  rcases (@tolerant lenient rfl).verdict (output lenient source) with ⟨last, okAgain⟩
  have depth := depth_of_verdicts rfl source ok okAgain
  have ranAgain := inMemory_of_verdict okAgain
  have strictly := normal.inMemory_strict okAgain
  rw [fixed] at ranAgain strictly
  refine ⟨_, _, _, inMemory_of_verdict ok, ranAgain, normal.maxDepth_le okAgain,
    normal.not_dips lenient, ?_, ?_, ?_⟩
  · intro opening position byte opens after unclosed here
    have breaks := normal.isLineBreak_inside opens after unclosed here
    rw [isLineBreak, Bool.or_eq_true_iff, beq_iff_eq, beq_iff_eq] at breaks
    exact breaks.symm
  · intro (closed : first.nesting.depth ≤ 0)
    rw [if_neg (Int.not_lt.mpr closed)] at depth
    rw [Cursor.unclosedBlock, depth] at strictly
    exact strictly.trans ranAgain
  · intro (inside : 0 < first.nesting.depth)
    rw [if_pos inside] at depth
    rw [Cursor.unclosedBlock, depth] at strictly
    exact ⟨_, strictly, rfl⟩

/-- Behind a stray brace, what stands between blocks is hollowed and the blocks are
kept; what is left has no brace to go wrong again. -/
example :
    (Outlet.inMemory (Hollow.run · {} (Bytes.ofText "a\x7db\x7bc\nd\x7de\x7bf"))).2 =
      Bytes.ofText "ac\ndf" := rfl

end GrammarTidy
