import GrammarTidy.Proofs.Diagnosis

/-! Texts as sequences of plain bytes and blocks, and the braces that belong
together in them. A scan only counts how deep it stands; here the depth is tied
to the blocks themselves, for any assignment of roles to positions. -/

namespace GrammarTidy

/-- The positions from one to another hold plain bytes and blocks. A block is an
opening brace, a body of the same kind, and a closing brace. -/
inductive Blocks (role : Nat → BraceRole) : Nat → Nat → Prop
  | done (position : Nat) : Blocks role position position
  | plain {position stop : Nat} : role position = .plain →
      Blocks role (position + 1) stop → Blocks role position stop
  | block {opening closing stop : Nat} : role opening = .opening →
      Blocks role (opening + 1) closing → role closing = .closing →
      Blocks role (closing + 1) stop → Blocks role opening stop

/-- Two braces are the first and the last of one block. -/
structure Closes (role : Nat → BraceRole) (opening closing : Nat) : Prop where
  opens : role opening = .opening
  body : Blocks role (opening + 1) closing
  closes : role closing = .closing

def ClosesNothing (role : Nat → BraceRole) (closing : Nat) : Prop :=
  role closing = .closing ∧ ∀ opening, ¬Closes role opening closing

def NeverClosed (role : Nat → BraceRole) (opening : Nat) : Prop :=
  role opening = .opening ∧ ∀ closing, ¬Closes role opening closing

variable {role : Nat → BraceRole}

/-! ## The depth from position to position -/

theorem depthBefore_of_plain {position : Nat} (plain : role position = .plain) :
    depthBefore role (position + 1) = depthBefore role position := by
  rw [depthBefore_succ, plain]

theorem depthBefore_of_opening {position : Nat} (opening : role position = .opening) :
    depthBefore role (position + 1) = depthBefore role position + 1 := by
  rw [depthBefore_succ, opening]

theorem depthBefore_of_closing {position : Nat} (closing : role position = .closing) :
    depthBefore role (position + 1) = depthBefore role position - 1 := by
  rw [depthBefore_succ, closing]

private theorem exists_descent {level : Int} {start stop : Nat} (before : start ≤ stop)
    (above : level < depthBefore role start) (below : depthBefore role stop ≤ level) :
    ∃ closing, start ≤ closing ∧ closing < stop ∧ role closing = .closing ∧
      depthBefore role (closing + 1) = level ∧
      ∀ position, start ≤ position → position ≤ closing → level < depthBefore role position := by
  induction distance : stop - start generalizing start with
  | zero =>
      have same : start = stop := by omega
      rw [same] at above
      omega
  | succ distance induction =>
      by_cases lower : depthBefore role (start + 1) ≤ level
      · cases here : role start with
        | plain =>
            rw [depthBefore_of_plain here] at lower
            omega
        | opening =>
            rw [depthBefore_of_opening here] at lower
            omega
        | closing =>
            have after := depthBefore_of_closing here
            refine ⟨start, Nat.le_refl _, by omega, here, by omega, ?_⟩
            intro position behind within
            rwa [Nat.le_antisymm within behind]
      · have goesOn : start + 1 ≤ stop := by omega
        rcases induction goesOn (Int.lt_of_not_ge lower) (by omega) with
          ⟨closing, behind, within, isClosing, back, higher⟩
        refine ⟨closing, Nat.le_of_succ_le behind, within, isClosing, back, ?_⟩
        intro position behind upTo
        rcases Nat.eq_or_lt_of_le behind with rfl | later
        · exact above
        · exact higher position later upTo

private theorem exists_climb {level : Int} {start stop : Nat} (before : start ≤ stop)
    (below : depthBefore role start ≤ level) (above : level < depthBefore role stop) :
    ∃ opening, start ≤ opening ∧ opening < stop ∧ role opening = .opening ∧
      depthBefore role opening = level ∧
      ∀ position, opening < position → position ≤ stop → level < depthBefore role position := by
  induction before with
  | refl => omega
  | @step stop before induction =>
      by_cases higher : level < depthBefore role stop
      · rcases induction higher with ⟨opening, behind, within, isOpening, same, deeper⟩
        refine ⟨opening, behind, by omega, isOpening, same, ?_⟩
        intro position behind upTo
        rcases Nat.lt_or_eq_of_le upTo with earlier | rfl
        · exact deeper position behind (Nat.le_of_lt_succ earlier)
        · exact above
      · cases here : role stop with
        | plain =>
            rw [Nat.succ_eq_add_one, depthBefore_of_plain here] at above
            omega
        | closing =>
            rw [Nat.succ_eq_add_one, depthBefore_of_closing here] at above
            omega
        | opening =>
            have after := depthBefore_of_opening here
            rw [Nat.succ_eq_add_one] at above
            refine ⟨stop, before, Nat.lt_succ_self _, here, by omega, ?_⟩
            intro position behind upTo
            rwa [Nat.le_antisymm upTo behind]

/-! ## Blocks and depths -/

theorem Blocks.le {start stop : Nat} (blocks : Blocks role start stop) : start ≤ stop := by
  induction blocks with
  | done => exact Nat.le_refl _
  | plain _ _ induction => omega
  | block _ _ _ _ inner later => omega

theorem Blocks.depth {start stop : Nat} (blocks : Blocks role start stop) :
    depthBefore role stop = depthBefore role start ∧
      ∀ position, start ≤ position → position ≤ stop →
        depthBefore role start ≤ depthBefore role position := by
  induction blocks with
  | done position =>
      refine ⟨rfl, fun other behind within => ?_⟩
      cases Nat.le_antisymm within behind
      exact Int.le_refl _
  | @plain start stop here rest induction =>
      have after := depthBefore_of_plain here
      refine ⟨by omega, fun position behind within => ?_⟩
      rcases Nat.eq_or_lt_of_le behind with rfl | later
      · exact Int.le_refl _
      · have := induction.2 position later within
        omega
  | @block opening closing stop opens body closes rest inner later =>
      have entered := depthBefore_of_opening opens
      have left := depthBefore_of_closing closes
      refine ⟨by omega, fun position behind within => ?_⟩
      rcases Nat.eq_or_lt_of_le behind with rfl | inside
      · exact Int.le_refl _
      · rcases Nat.lt_or_ge closing position with past | before
        · have := later.2 position past within
          omega
        · have := inner.2 position inside before
          omega

theorem blocks_of_depth {start stop : Nat} (before : start ≤ stop)
    (back : depthBefore role stop = depthBefore role start)
    (above : ∀ position, start ≤ position → position ≤ stop →
      depthBefore role start ≤ depthBefore role position) : Blocks role start stop := by
  rcases Nat.eq_or_lt_of_le before with rfl | within
  · exact .done start
  · have next := above (start + 1) (Nat.le_succ _) within
    cases here : role start with
    | closing =>
        rw [depthBefore_of_closing here] at next
        omega
    | plain =>
        have after := depthBefore_of_plain here
        apply Blocks.plain here
        apply blocks_of_depth within (back.trans after.symm)
        intro position behind upTo
        rw [after]
        exact above position (Nat.le_of_succ_le behind) upTo
    | opening =>
        have after := depthBefore_of_opening here
        have goesOn : start + 1 ≤ stop := within
        rcases exists_descent goesOn (by omega) (Int.le_of_eq back) with
          ⟨closing, behind, inside, closes, returned, higher⟩
        have left := depthBefore_of_closing closes
        apply Blocks.block here ?_ closes
        · apply blocks_of_depth inside (back.trans returned.symm)
          intro position behind upTo
          rw [returned]
          exact above position (by omega) upTo
        · apply blocks_of_depth behind (by omega)
          intro position behind upTo
          have := higher position behind upTo
          omega
termination_by stop - start

/-! ## Braces that belong together -/

theorem closes_of_depth {opening closing : Nat} (opens : role opening = .opening)
    (closes : role closing = .closing) (before : opening < closing)
    (back : depthBefore role (closing + 1) = depthBefore role opening)
    (deeper : ∀ position, opening < position → position ≤ closing →
      depthBefore role opening < depthBefore role position) : Closes role opening closing := by
  have entered := depthBefore_of_opening opens
  have left := depthBefore_of_closing closes
  refine ⟨opens, blocks_of_depth before (by omega) ?_, closes⟩
  intro position behind upTo
  have := deeper position behind upTo
  omega

theorem Closes.lt {opening closing : Nat} (pair : Closes role opening closing) :
    opening < closing :=
  pair.body.le

theorem Closes.depth {opening closing : Nat} (pair : Closes role opening closing) :
    depthBefore role (closing + 1) = depthBefore role opening := by
  have entered := depthBefore_of_opening pair.opens
  have left := depthBefore_of_closing pair.closes
  have back := pair.body.depth.1
  omega

theorem not_closesNothing {closing : Nat}
    (above : ∀ position ≤ closing + 1, 0 ≤ depthBefore role position) :
    ¬ClosesNothing role closing := by
  rintro ⟨closes, alone⟩
  have left := depthBefore_of_closing closes
  have level := above (closing + 1) (Nat.le_refl _)
  have higher : depthBefore role (closing + 1) < depthBefore role closing := by omega
  rcases exists_climb (Nat.zero_le closing) level higher with
    ⟨opening, -, within, opens, same, deeper⟩
  apply alone opening
  apply closes_of_depth opens closes within same.symm
  intro position behind upTo
  rw [same]
  exact deeper position behind upTo

theorem not_closesNothing_of_stray? {length : Nat} (clear : stray? role length = none) :
    ∀ closing < length, ¬ClosesNothing role closing := by
  intro closing within
  apply not_closesNothing
  intro position upTo
  exact depthBefore_nonneg clear position (Nat.le_trans upTo within)

theorem closesNothing_of_first {length offset : Nat}
    (first : firstFrom (straysAt role) 0 length = some offset) :
    ClosesNothing role offset ∧ ∀ earlier < offset, ¬ClosesNothing role earlier := by
  rcases firstFrom_eq_some_iff.mp first with ⟨strays, -, -, before⟩
  have clear : stray? role offset = none := by
    rw [stray?, Option.map_eq_none_iff, firstFrom_eq_none_iff]
    exact before
  simp only [straysAt, Bool.and_eq_true, decide_eq_true_eq] at strays
  refine ⟨⟨strays.1, ?_⟩, not_closesNothing_of_stray? clear⟩
  intro opening pair
  have above := depthBefore_nonneg clear opening (Nat.le_of_lt pair.lt)
  have back := pair.depth
  omega

theorem neverClosed_iff {length opening : Nat} (ends : ∀ closing, role closing = .closing →
      closing < length) (within : opening < length) :
    NeverClosed role opening ↔ unmatchedAt role length opening = true := by
  rw [unmatchedAt_iff within]
  constructor
  · rintro ⟨opens, alone⟩
    refine ⟨opens, fun later behind upTo => ?_⟩
    apply Int.lt_of_not_ge
    intro lower
    have entered := depthBefore_of_opening opens
    have after : opening + 1 ≤ later := behind
    rcases exists_descent after (by omega) lower with
      ⟨closing, after, -, closes, back, higher⟩
    exact alone closing (closes_of_depth opens closes after back higher)
  · rintro ⟨opens, deeper⟩
    refine ⟨opens, fun closing pair => ?_⟩
    have := deeper (closing + 1) (Nat.lt_succ_of_lt pair.lt) (ends closing pair.closes)
    have := pair.depth
    omega

/-! ## How many braces are never closed -/

private theorem unmatchedAt_succ {length opening : Nat} (within : opening < length) :
    unmatchedAt role (length + 1) opening =
      (unmatchedAt role length opening &&
        decide (depthBefore role opening < depthBefore role (length + 1))) := by
  rw [Bool.eq_iff_iff, Bool.and_eq_true, decide_eq_true_eq, unmatchedAt_iff within,
    unmatchedAt_iff (Nat.lt_succ_of_lt within)]
  constructor
  · rintro ⟨opens, deeper⟩
    refine ⟨⟨opens, fun later behind upTo => ?_⟩, ?_⟩
    · exact deeper later behind (Nat.le_succ_of_le upTo)
    · exact deeper (length + 1) (Nat.lt_succ_of_lt within) (Nat.le_refl _)
  · rintro ⟨⟨opens, deeper⟩, last⟩
    refine ⟨opens, fun later behind upTo => ?_⟩
    rcases Nat.lt_or_eq_of_le upTo with earlier | rfl
    · exact deeper later behind (Nat.le_of_lt_succ earlier)
    · exact last

private theorem unmatchedAt_last {length : Nat} :
    unmatchedAt role (length + 1) length = true ↔ role length = .opening := by
  rw [unmatchedAt_iff (Nat.lt_succ_self _)]
  constructor
  · exact And.left
  · intro opens
    refine ⟨opens, fun later behind upTo => ?_⟩
    rw [Nat.le_antisymm upTo behind, Nat.succ_eq_add_one, depthBefore_of_opening opens]
    exact Int.lt_succ _

def unmatchedBelow (role : Nat → BraceRole) (length : Nat) (level : Int) : Nat :=
  (List.range length).countP fun opening =>
    unmatchedAt role length opening && decide (depthBefore role opening < level)

private theorem unmatchedBelow_succ (length : Nat) (level : Int) :
    unmatchedBelow role (length + 1) level =
      unmatchedBelow role length (min level (depthBefore role (length + 1))) +
        if role length = .opening ∧ depthBefore role length < level then 1 else 0 := by
  unfold unmatchedBelow
  rw [List.range_succ, List.countP_append, List.countP_singleton]
  simp only [Bool.and_eq_true, decide_eq_true_eq, unmatchedAt_last]
  congr 1
  apply List.countP_congr
  intro opening member
  rw [unmatchedAt_succ (List.mem_range.mp member)]
  simp only [Bool.and_eq_true, decide_eq_true_eq, Int.lt_min]
  constructor
  · rintro ⟨⟨unmatched, last⟩, lower⟩
    exact ⟨unmatched, lower, last⟩
  · rintro ⟨unmatched, lower, last⟩
    exact ⟨⟨unmatched, last⟩, lower⟩

/-- At every level below the depth at the end, one brace is never closed. The
levels are kept apart because a closing brace takes away the topmost only. -/
theorem unmatchedBelow_eq {length : Nat}
    (above : ∀ position ≤ length, 0 ≤ depthBefore role position) {level : Int}
    (nonneg : 0 ≤ level) :
    (unmatchedBelow role length level : Int) = min level (depthBefore role length) := by
  induction length generalizing level with
  | zero =>
      rw [depthBefore_zero, Int.min_eq_right nonneg]
      rfl
  | succ length induction =>
      have last := above (length + 1) (Nat.le_refl _)
      have earlier := induction (fun position upTo => above position (Nat.le_succ_of_le upTo))
        (Int.le_min.mpr ⟨nonneg, last⟩)
      rw [unmatchedBelow_succ, Int.natCast_add, earlier]
      cases here : role length with
      | plain =>
          have after := depthBefore_of_plain here
          rw [if_neg nofun]
          omega
      | closing =>
          have after := depthBefore_of_closing here
          rw [if_neg nofun]
          omega
      | opening =>
          have after := depthBefore_of_opening here
          by_cases lower : depthBefore role length < level
          · rw [if_pos ⟨rfl, lower⟩]
            omega
          · rw [if_neg (lower ·.2)]
            omega

theorem length_filter_unmatchedAt {length : Nat} (clear : stray? role length = none) :
    (((List.range length).filter (unmatchedAt role length)).length : Int) =
      depthBefore role length := by
  have above := depthBefore_nonneg clear
  have counted := unmatchedBelow_eq above (above length (Nat.le_refl _))
  rw [Int.min_self] at counted
  rw [← counted, ← List.countP_eq_length_filter, unmatchedBelow]
  congr 1
  apply List.countP_congr
  intro opening member
  have within := List.mem_range.mp member
  rw [Bool.and_eq_true, decide_eq_true_eq]
  constructor
  · intro unmatched
    exact ⟨unmatched, ((unmatchedAt_iff within).mp unmatched).2 length within (Nat.le_refl _)⟩
  · exact And.left

end GrammarTidy
