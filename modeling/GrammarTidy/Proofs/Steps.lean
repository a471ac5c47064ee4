import GrammarTidy.Proofs.Positional
import GrammarTidy.Proofs.Strictness
import GrammarTidy.Proofs.Tallies
import Mathlib.Data.List.Chain

/-! The steps of a scan: what holds before every one of them, how far each of them goes,
and where the last one comes to. The scan of a rules section carries a quote, the byte
before it, a depth and the starts of a comment and a block along; here they are read off
the text, at the offset where the scan stands. -/

namespace GrammarTidy

open Byte

/-! ## Steps of any scan -/

/-- A move that makes a step, to a state in which something holds with the text that is
left. A rejection makes none. -/
def Move.Goes {State : Type} (step : State → Prop) (going : State → Bytes → Prop)
    (rest : Bytes) : Move State → Prop
  | .one _ next => step next ∧ going next rest
  | .two _ next => step next ∧ going next rest.tail
  | .stop _ last => step last ∧ going last rest
  | .reject _ => True

namespace Scanner

variable {State : Type} {scanner : Scanner State} {rest unread : Bytes} {state last : State}

/-- The states that a walk comes to from a first one on: something holds in each of them,
with a text that is still to be read, and a step leads from each to the next. -/
structure Journey (going : State → Bytes → Prop) (step : State → State → Prop) (first : State)
    (visits : List State) : Prop where
  head : visits.head? = some first
  going : ∀ visited ∈ visits, ∃ later, going visited later
  chain : visits.IsChain step

section Journeys

variable {going : State → Bytes → Prop} {step : State → State → Prop} {next : State}
  {visits : List State}

private theorem journey_singleton (here : going state rest) : Journey going step state [state] where
  head := rfl
  going := List.forall_mem_singleton.mpr ⟨rest, here⟩
  chain := List.isChain_singleton state

theorem Journey.cons (here : going state rest) (steps : step state next)
    (journey : Journey going step next visits) : Journey going step state (state :: visits) where
  head := rfl
  going := List.forall_mem_cons.mpr ⟨⟨rest, here⟩, journey.going⟩
  chain := by
    apply journey.chain.cons
    intro visited member
    rw [journey.head, Option.mem_some_iff] at member
    exact member ▸ steps

/-- What one move keeps, a whole walk keeps. -/
theorem journey_of_moves
    (moves : ∀ state byte rest, going state (byte :: rest) →
      (scanner.move state byte rest.head?).Goes (step state) going rest)
    (start : going state rest) : Journey going step state (scanner.states rest state) := by
  fun_induction scanner.trace rest state with
  | case1 state => exact journey_singleton start
  | case2 byte rest state chunks next move induction =>
      have kept := moves _ _ _ start
      rw [move] at kept
      rw [states, move]
      exact .cons start kept.1 (induction kept.2)
  | case3 byte state chunks next move =>
      have kept := moves _ _ _ start
      rw [move] at kept
      rw [states, move]
      exact .cons start kept.1 (journey_singleton kept.2)
  | case4 byte state chunks next skipped later move induction =>
      have kept := moves _ _ _ start
      rw [move] at kept
      rw [states, move]
      exact .cons start kept.1 (induction kept.2)
  | case5 byte rest state chunks last move =>
      have kept := moves _ _ _ start
      rw [move] at kept
      rw [states, move]
      exact .cons start kept.1 (journey_singleton kept.2)
  | case6 byte rest state defect move =>
      rw [states, move]
      exact journey_singleton start

end Journeys

theorem length_states_le (scanner : Scanner State) (rest : Bytes) (state : State) :
    (scanner.states rest state).length ≤ rest.length + 1 := by
  fun_induction scanner.trace rest state with
  | case1 state => exact Nat.le_refl 1
  | case2 byte rest state chunks next move induction =>
      rw [states, move]
      exact Nat.succ_le_succ induction
  | case3 byte state chunks next move =>
      rw [states, move]
      exact Nat.le_refl 2
  | case4 byte state chunks next skipped later move induction =>
      rw [states, move]
      exact Nat.succ_le_succ (Nat.le_succ_of_le induction)
  | case5 byte rest state chunks last move =>
      rw [states, move]
      exact Nat.le_add_left 2 rest.length
  | case6 byte rest state defect move =>
      rw [states, move]
      exact Nat.le_add_left 1 _

theorem getLast?_states (finished : (scanner.trace rest state).ending = .finished last unread) :
    (scanner.states rest state).getLast? = some last := by
  have behind : ∀ {visits : List State} (state : State), visits.getLast? = some last →
      (state :: visits).getLast? = some last := by
    intro visits state ends
    rw [List.getLast?_cons, ends]
    rfl
  fun_induction scanner.trace rest state with
  | case1 state =>
      cases finished
      rfl
  | case2 byte rest state chunks next move induction =>
      rw [states, move]
      exact behind state (induction finished)
  | case3 byte state chunks next move =>
      cases finished
      rw [states, move]
      rfl
  | case4 byte state chunks next skipped later move induction =>
      rw [states, move]
      exact behind state (induction finished)
  | case5 byte rest state chunks last move =>
      cases finished
      rw [states, move]
      rfl
  | case6 => cases finished

end Scanner

/-! ## Steps of the rules -/

theorem Cursor.Tracks.isGreatest {cursor : Cursor} {role : Nat → BraceRole}
    (tracks : cursor.Tracks role) (positive : 0 < cursor.nesting.depth) :
    IsGreatest {index | index ≤ cursor.offset ∧ depthBefore role index = 0}
      cursor.blockStart := by
  rcases tracks.block positive with ⟨-, before, zero, deeper⟩
  apply And.intro ⟨Nat.le_of_lt before, zero⟩
  intro index level
  apply Nat.le_of_not_lt
  intro behind
  exact Int.ne_of_gt (deeper index behind level.1) level.2

namespace Rules

inductive Moves (settings : Settings) (position : Position) :
    UInt8 → Bytes → Move Position → Prop
  | close {later : Bytes} (inside : position.comment.isSome) :
      Moves settings position star (slash :: later) (.two [] position.closeComment)
  | skip {byte : UInt8} {rest : Bytes} (inside : position.comment.isSome)
      (going : byte = star → rest.head? ≠ some slash) :
      Moves settings position byte rest (.one [] (position.skip byte))
  | stray {byte : UInt8} {rest : Bytes} (outside : position.comment = none)
      (strict : settings.strict = true) (strays : position.cursor.strays byte = true) :
      Moves settings position byte rest (.reject position.cursor.strayClose)
  | enter {later : Bytes} (outside : position.comment = none)
      (live : position.cursor.nesting.quoted = false) :
      Moves settings position slash (star :: later) (.two [] position.openComment)
  | read {byte : UInt8} {rest : Bytes} (outside : position.comment = none)
      (ordinary : position.opensComment byte rest.head? = false) :
      Moves settings position byte rest
        (.one (chunks position.cursor.nesting position.previous byte) (position.read byte))

theorem moves (settings : Settings) (position : Position) (byte : UInt8) (rest : Bytes) :
    Moves settings position byte rest ((scanner settings).move position byte rest.head?) := by
  cases comment : position.comment with
  | some start =>
      have inside : position.comment.isSome := by simp [comment]
      by_cases closes : byte = star ∧ rest.head? = some slash
      · rcases rest with _ | ⟨second, later⟩
        · simp at closes
        · rcases closes with ⟨rfl, second⟩
          cases Option.some.inj second
          have move : (scanner settings).move position star (some slash) =
              .two [] position.closeComment := by simp [scanner, comment]
          rw [List.head?_cons, move]
          exact .close inside
      · have going : byte = star → rest.head? ≠ some slash := fun star head => closes ⟨star, head⟩
        have move : (scanner settings).move position byte rest.head? =
            .one [] (position.skip byte) := by simpa [scanner, comment] using going
        rw [move]
        exact .skip inside going
  | none =>
      have move : (scanner settings).move position byte rest.head? =
          if settings.strict && position.cursor.strays byte then
            .reject position.cursor.strayClose
          else if position.opensComment byte rest.head? then
            .two [] position.openComment
          else
            .one (chunks position.cursor.nesting position.previous byte)
              (position.read byte) := if_neg (by simp [comment])
      rw [move]
      cases stray : settings.strict && position.cursor.strays byte with
      | true =>
          rw [Bool.and_eq_true] at stray
          exact .stray comment stray.1 stray.2
      | false =>
          cases opens : position.opensComment byte rest.head? with
          | false => exact .read comment opens
          | true =>
              rcases rest with _ | ⟨second, later⟩
              · simp [Position.opensComment] at opens
              · simp only [Position.opensComment, List.head?_cons, Bool.and_eq_true,
                  beq_iff_eq, Bool.not_eq_true', Option.some.injEq] at opens
                rcases opens with ⟨⟨rfl, live⟩, rfl⟩
                exact .enter comment live

namespace Position

variable {position : Position} {source rest : Bytes} {byte : UInt8}

structure Stands (position : Position) (source rest : Bytes) : Prop where
  follows : position.Follows source rest
  recalls : position.Recalls source

theorem stands_initial (source : Bytes) : ({} : Position).Stands source source where
  follows := follows_initial source
  recalls := rfl

def Advances (position next : Position) : Prop :=
  next.cursor.offset = position.cursor.offset + 1 ∨
    next.cursor.offset = position.cursor.offset + 2

theorem Stands.move (stands : position.Stands source (byte :: rest)) (settings : Settings) :
    ((scanner settings).move position byte rest.head?).Goes position.Advances
      (Stands · source) rest := by
  have follows := stands.follows
  have way := moves settings position byte rest
  generalize (scanner settings).move position byte rest.head? = move at way ⊢
  cases way with
  | close inside =>
      rcases Option.isSome_iff_exists.mp inside with ⟨start, same⟩
      exact ⟨.inr rfl, follows.close same, follows.previousAt_pair.symm⟩
  | skip inside going =>
      rcases Option.isSome_iff_exists.mp inside with ⟨start, same⟩
      exact ⟨.inl rfl, follows.skip same going, follows.previousAt_next.symm⟩
  | stray outside strict strays => trivial
  | enter outside live =>
      exact ⟨.inr rfl, follows.enter outside live, follows.previousAt_pair.symm⟩
  | read outside ordinary =>
      refine ⟨.inl (position.offset_read byte), follows.read outside ordinary, ?_⟩
      rw [Recalls, offset_read]
      exact follows.previousAt_next.symm

/-- The invariant of a scan of a rules section, in terms of the text alone. -/
structure Knows (position : Position) (source : Bytes) : Prop where
  within : position.cursor.offset ≤ source.length
  quoted : position.cursor.nesting.quoted = true ↔
    0 < position.cursor.offset ∧ source[position.cursor.offset - 1]? = some quote
  previous :
    if position.cursor.offset = 0 then position.previous = percent
    else source[position.cursor.offset - 1]? = some position.previous
  /-- The comment that the scan stands in has been opened and not been closed. -/
  comment : ∀ start, position.comment = some start →
    source[start]? = some slash ∧ source[start + 1]? = some star ∧
      start + 2 ≤ position.cursor.offset ∧
      ∀ index, start + 2 ≤ index → index + 2 ≤ position.cursor.offset →
        ¬(source[index]? = some star ∧ source[index + 1]? = some slash)
  depth : position.cursor.nesting.depth = depthBefore (liveRoleAt source) position.cursor.offset
  /-- The block that the scan stands in starts with the first live opening brace since the
  depth was last zero. -/
  block : 0 < position.cursor.nesting.depth → ∃ level,
    IsGreatest {index | index ≤ position.cursor.offset ∧
      depthBefore (liveRoleAt source) index = 0} level ∧
    IsLeast {index | level ≤ index ∧ index < position.cursor.offset ∧
      liveRoleAt source index = .opening} position.cursor.blockStart

private theorem Recalls.previous_eq (recalls : position.Recalls source)
    (within : position.cursor.offset ≤ source.length) :
    if position.cursor.offset = 0 then position.previous = percent
    else source[position.cursor.offset - 1]? = some position.previous := by
  rw [recalls]
  cases offset : position.cursor.offset with
  | zero => rfl
  | succ before =>
      rw [offset] at within
      rw [if_neg (Nat.succ_ne_zero before), Nat.add_sub_cancel, previousAt,
        List.getElem?_eq_getElem within]
      rfl

theorem Stands.knows (stands : position.Stands source rest) : position.Knows source := by
  have follows := stands.follows
  refine ⟨follows.within, ?_, stands.recalls.previous_eq follows.within, ?_, follows.tracks.depth, ?_⟩
  · rw [follows.quoted]
    simp [quotedAt]
  · intro start same
    have inside := follows.inside start same
    have opens := opensAt_of_mem_commentsFrom inside.mem_comments
    simp only [opensAt, Bool.and_eq_true, beq_iff_eq] at opens
    refine ⟨opens.1.1, opens.2, inside.behind, ?_⟩
    intro index above below closes
    have unclosed := inside.going index above (by omega)
    simp [closesAt, closes] at unclosed
  · intro positive
    rcases follows.tracks.block positive with ⟨opening, before, -, -⟩
    refine ⟨_, follows.tracks.isGreatest positive, ⟨Nat.le_refl _, before, opening⟩, ?_⟩
    intro index member
    exact member.1

end Position

/-- A scan of a rules section knows before every step where it stands in the text. Every
step that is not rejected goes one or two bytes on. So the scan ends, and it ends at the
end of the text, unless it is strict and rejects a byte on the way. -/
theorem walk_knows_text (settings : Settings) (source : Bytes) :
    let heads := (scanner settings).states source {}
    heads.head? = some {} ∧
    (∀ position ∈ heads, position.Knows source) ∧
    heads.IsChain Position.Advances ∧
    heads.length ≤ source.length + 1 ∧
    match (((scanner settings).walk Outlet.memory source source {} 0).run.run #[]).1 with
    | .ok (last, _) => heads.getLast? = some last ∧ last.cursor.offset = source.length
    | .error _ => settings.strict = true := by
  intro heads
  have journey : Scanner.Journey (Position.Stands · source) Position.Advances {} heads :=
    Scanner.journey_of_moves (fun _ _ _ stands => stands.move settings)
      (Position.stands_initial source)
  refine ⟨journey.head, ?_, journey.chain, Scanner.length_states_le _ _ _, ?_⟩
  · intro position member
    rcases journey.going position member with ⟨rest, stands⟩
    exact stands.knows
  · rw [Scanner.walk_eq, run_bind_of_ok (Outlet.putAll_memory _ _)]
    cases ending : ((scanner settings).trace source {}).ending with
    | finished last unread =>
        have follows := (measures_of_finished (Position.follows_initial source)
          (Cursor.measures_initial _) last unread ending).1
        exact ⟨Scanner.getLast?_states ending, follows.offset_eq⟩
    | rejected defect =>
        change settings.strict = true
        by_contra lenient
        rcases (tolerant (Bool.eq_false_iff.mpr lenient)).trace source {} with
          ⟨last, unread, finished⟩
        cases ending.symm.trans finished

end Rules

end GrammarTidy
