import GrammarTidy.Proofs.RulesReading

/-! The comments of a rules section as regions of its text, found from the left,
and the positions of a scan in terms of them. -/

namespace GrammarTidy.Rules

open Byte

/-! ## Regions -/

/-- A slash that is not quoted, and a star. -/
def opensAt (text : Bytes) (position : Nat) : Bool :=
  text[position]? == some slash && !quotedAt text position &&
    text[position + 1]? == some star

def closesAt (text : Bytes) (position : Nat) : Bool :=
  text[position]? == some star && text[position + 1]? == some slash

def closer? (text : Bytes) (start : Nat) : Option Nat :=
  firstFrom (closesAt text) (start + 2) text.length

def commentStop (text : Bytes) (start : Nat) : Nat :=
  match closer? text start with
  | some closer => closer + 2
  | none => text.length

theorem le_commentStop {text : Bytes} {start position : Nat} (near : position ≤ start + 2)
    (within : position ≤ text.length) : position ≤ commentStop text start := by
  unfold commentStop
  cases found : closer? text start with
  | none => exact within
  | some closer =>
      have above := (firstFrom_eq_some_iff.mp found).2.1
      dsimp only
      omega

/-- The starts of the comments from `lower` on. A comment starts where one opens
outside all earlier comments. -/
def commentsFrom (text : Bytes) (lower : Nat) : List Nat :=
  match _found : firstFrom (opensAt text) lower text.length with
  | none => []
  | some start => start :: commentsFrom text (commentStop text start)
termination_by text.length - lower
decreasing_by
  rcases firstFrom_eq_some_iff.mp _found with ⟨-, above, below, -⟩
  have past : start + 1 ≤ commentStop text start := le_commentStop (by omega) below
  omega

def comments (text : Bytes) : List Nat := commentsFrom text 0

def inComment (text : Bytes) (position : Nat) : Bool :=
  (comments text).any fun start => start ≤ position && position < commentStop text start

def openComment? (text : Bytes) : Option Nat :=
  (comments text).find? fun start => (closer? text start).isNone

/-- What the byte at a position does to the nesting. In comments it does
nothing. -/
def liveRoleAt (text : Bytes) (position : Nat) : BraceRole :=
  if inComment text position then .plain else roleAt text position

private theorem lt_length_of_opensAt {text : Bytes} {position : Nat}
    (opens : opensAt text position = true) : position + 1 < text.length := by
  simp only [opensAt, Bool.and_eq_true, beq_iff_eq] at opens
  exact (List.getElem?_eq_some_iff.mp opens.2).1

private theorem lt_length_of_closesAt {text : Bytes} {position : Nat}
    (closes : closesAt text position = true) : position + 1 < text.length := by
  simp only [closesAt, Bool.and_eq_true, beq_iff_eq] at closes
  exact (List.getElem?_eq_some_iff.mp closes.2).1

theorem commentsFrom_of_some {text : Bytes} {lower start : Nat}
    (found : firstFrom (opensAt text) lower text.length = some start) :
    commentsFrom text lower = start :: commentsFrom text (commentStop text start) := by
  rw [commentsFrom]
  split <;> simp_all

theorem commentsFrom_of_none {text : Bytes} {lower : Nat}
    (absent : firstFrom (opensAt text) lower text.length = none) :
    commentsFrom text lower = [] := by
  rw [commentsFrom]
  split <;> simp_all

theorem commentsFrom_of_opensAt {text : Bytes} {position : Nat}
    (opens : opensAt text position = true) :
    commentsFrom text position = position :: commentsFrom text (commentStop text position) := by
  have within := lt_length_of_opensAt opens
  apply commentsFrom_of_some
  rw [firstFrom_eq_some_iff]
  exact ⟨opens, Nat.le_refl _, by omega, fun earlier above below => by omega⟩

theorem commentsFrom_of_not_opensAt {text : Bytes} {position : Nat}
    (ordinary : opensAt text position = false) :
    commentsFrom text position = commentsFrom text (position + 1) := by
  rw [commentsFrom, commentsFrom, firstFrom_succ text.length ordinary]

private theorem le_of_mem_commentsFrom {text : Bytes} {lower start : Nat}
    (member : start ∈ commentsFrom text lower) : lower ≤ start := by
  induction lower using commentsFrom.induct text with
  | case1 lower absent =>
      rw [commentsFrom_of_none absent] at member
      cases member
  | case2 lower first found induction =>
      rcases firstFrom_eq_some_iff.mp found with ⟨-, above, below, -⟩
      have past : first + 1 ≤ commentStop text first := le_commentStop (by omega) below
      rw [commentsFrom_of_some found] at member
      rcases List.mem_cons.mp member with rfl | later
      · exact above
      · have := induction later
        omega

theorem opensAt_of_mem_commentsFrom {text : Bytes} {lower start : Nat}
    (member : start ∈ commentsFrom text lower) : opensAt text start = true := by
  induction lower using commentsFrom.induct text with
  | case1 lower absent =>
      rw [commentsFrom_of_none absent] at member
      cases member
  | case2 lower first found induction =>
      rw [commentsFrom_of_some found] at member
      rcases List.mem_cons.mp member with rfl | later
      · exact (firstFrom_eq_some_iff.mp found).1
      · exact induction later

theorem inComment_of_mem {text : Bytes} {start position : Nat} (member : start ∈ comments text)
    (above : start ≤ position) (below : position < commentStop text start) :
    inComment text position = true :=
  List.any_eq_true.mpr ⟨start, member, by simp [above, below]⟩

theorem liveRoleAt_of_inComment {text : Bytes} {position : Nat}
    (inside : inComment text position = true) : liveRoleAt text position = .plain := by
  rw [liveRoleAt, inside]
  rfl

/-! ## Positions of a scan -/

def ClosedBefore (text : Bytes) (start position : Nat) : Prop :=
  ∃ closer, closer? text start = some closer ∧ closer + 2 ≤ position

private theorem ClosedBefore.stop_le {text : Bytes} {start position : Nat}
    (closed : ClosedBefore text start position) : commentStop text start ≤ position := by
  rcases closed with ⟨closer, found, before⟩
  rw [commentStop, found]
  exact before

theorem ClosedBefore.mono {text : Bytes} {start position later : Nat}
    (closed : ClosedBefore text start position) (before : position ≤ later) :
    ClosedBefore text start later := by
  rcases closed with ⟨closer, found, earlier⟩
  exact ⟨closer, found, Nat.le_trans earlier before⟩

/-- Between the comments of a text: those seen end before this position. -/
def Between (text : Bytes) (position : Nat) : Prop :=
  ∃ seen, comments text = seen ++ commentsFrom text position ∧
    ∀ start ∈ seen, ClosedBefore text start position

structure Within (text : Bytes) (start position : Nat) : Prop where
  behind : start + 2 ≤ position
  going : ∀ earlier, start + 2 ≤ earlier → earlier < position → closesAt text earlier = false
  seen : ∃ seen, comments text = seen ++ start :: commentsFrom text (commentStop text start) ∧
    ∀ earlier ∈ seen, ClosedBefore text earlier start

theorem Within.mem_comments {text : Bytes} {start position : Nat}
    (inside : Within text start position) : start ∈ comments text := by
  rcases inside.seen with ⟨seen, split, -⟩
  simp [split]

theorem Within.lt_stop {text : Bytes} {start position : Nat}
    (inside : Within text start position) (within : position < text.length) :
    position < commentStop text start := by
  unfold commentStop
  cases found : closer? text start with
  | none => exact within
  | some closer =>
      rcases firstFrom_eq_some_iff.mp found with ⟨closes, above, -, -⟩
      have later : position ≤ closer := by
        apply Nat.le_of_not_lt
        intro earlier
        simp [inside.going closer above earlier] at closes
      dsimp only
      omega

private theorem Within.closer_eq {text : Bytes} {start position : Nat}
    (inside : Within text start position) (closes : closesAt text position = true) :
    closer? text start = some position := by
  have within := lt_length_of_closesAt closes
  exact firstFrom_eq_some_iff.mpr ⟨closes, inside.behind, by omega, inside.going⟩

private theorem Between.not_inComment {text : Bytes} {position : Nat}
    (outside : Between text position)
    (ordinary : opensAt text position = false) : inComment text position = false := by
  rcases outside with ⟨seen, split, past⟩
  rw [Bool.eq_false_iff]
  intro inside
  rcases List.any_eq_true.mp inside with ⟨start, member, bounds⟩
  simp only [Bool.and_eq_true, decide_eq_true_eq] at bounds
  rw [split, commentsFrom_of_not_opensAt ordinary] at member
  rcases List.mem_append.mp member with earlier | later
  · have := (past start earlier).stop_le
    omega
  · have := le_of_mem_commentsFrom later
    omega

/-- A position that a scan of `text` comes to with `rest` to read. -/
structure Position.Follows (position : Position) (text rest : Bytes) : Prop where
  rest : text.drop position.cursor.offset = rest
  within : position.cursor.offset ≤ text.length
  quoted : position.cursor.nesting.quoted = quotedAt text position.cursor.offset
  tracks : position.cursor.Tracks (liveRoleAt text)
  between : position.comment = none → Between text position.cursor.offset
  inside : ∀ start, position.comment = some start →
    Within text start position.cursor.offset

namespace Position

variable {position : Position} {text rest later : Bytes} {byte : UInt8} {start : Nat}

theorem follows_initial (text : Bytes) : ({} : Position).Follows text text where
  rest := rfl
  within := Nat.zero_le _
  quoted := rfl
  tracks := Cursor.tracks_initial _
  between _ := ⟨[], rfl, fun _ absurd => nomatch absurd⟩
  inside _ absurd := nomatch absurd

theorem Follows.offset_eq (follows : position.Follows text []) :
    position.cursor.offset = text.length :=
  Nat.le_antisymm follows.within (List.drop_eq_nil_iff.mp follows.rest)

theorem Follows.inComment_inside (follows : position.Follows text (byte :: rest))
    (inside : position.comment = some start) :
    inComment text position.cursor.offset = true := by
  rcases drop_eq_cons follows.rest with ⟨-, -, within⟩
  have comment := follows.inside start inside
  have above : start ≤ position.cursor.offset := Nat.le_of_add_right_le comment.behind
  exact inComment_of_mem comment.mem_comments above (comment.lt_stop within)

theorem Follows.liveRoleAt_inside (follows : position.Follows text (byte :: rest))
    (inside : position.comment = some start) :
    liveRoleAt text position.cursor.offset = .plain :=
  liveRoleAt_of_inComment (follows.inComment_inside inside)

theorem Follows.skip (follows : position.Follows text (byte :: rest))
    (inside : position.comment = some start)
    (going : byte = star → rest.head? ≠ some slash) :
    (position.skip byte).Follows text rest := by
  rcases drop_eq_cons follows.rest with ⟨here, tail, within⟩
  have comment := follows.inside start inside
  have unclosed : closesAt text position.cursor.offset = false := by
    rw [closesAt, here, ← List.head?_drop, tail, Bool.eq_false_iff]
    intro closes
    simp only [Bool.and_eq_true, beq_iff_eq, Option.some.injEq] at closes
    exact going closes.1 closes.2
  refine ⟨tail, within, (quotedAt_succ here).symm, ?_, ?_, ?_⟩
  · exact follows.tracks.skip byte (follows.liveRoleAt_inside inside)
  · intro outside
    cases inside.symm.trans outside
  · intro other same
    cases inside.symm.trans same
    refine ⟨Nat.le_succ_of_le comment.behind, ?_, comment.seen⟩
    intro earlier above below
    rcases Nat.lt_or_eq_of_le (Nat.le_of_lt_succ below) with before | rfl
    · exact comment.going earlier above before
    · exact unclosed

theorem Follows.inComment_close (follows : position.Follows text (star :: slash :: later))
    (inside : position.comment = some start) :
    closer? text start = some position.cursor.offset ∧
      inComment text (position.cursor.offset + 1) = true := by
  rcases drop_eq_cons follows.rest with ⟨here, tail, -⟩
  rcases drop_eq_cons tail with ⟨next, -, -⟩
  have comment := follows.inside start inside
  have closer : closer? text start = some position.cursor.offset :=
    comment.closer_eq (by simp [closesAt, here, next])
  have above : start ≤ position.cursor.offset + 1 :=
    Nat.le_succ_of_le (Nat.le_of_add_right_le comment.behind)
  have below : position.cursor.offset + 1 < commentStop text start := by
    rw [commentStop, closer]
    exact Nat.lt_succ_self _
  exact ⟨closer, inComment_of_mem comment.mem_comments above below⟩

theorem Follows.liveRoleAt_close (follows : position.Follows text (star :: slash :: later))
    (inside : position.comment = some start) :
    closer? text start = some position.cursor.offset ∧
      liveRoleAt text (position.cursor.offset + 1) = .plain :=
  (follows.inComment_close inside).imp_right liveRoleAt_of_inComment

theorem Follows.close (follows : position.Follows text (star :: slash :: later))
    (inside : position.comment = some start) : position.closeComment.Follows text later := by
  rcases drop_eq_cons follows.rest with ⟨here, tail, within⟩
  rcases drop_eq_cons tail with ⟨next, tailNext, withinNext⟩
  have comment := follows.inside start inside
  rcases follows.liveRoleAt_close inside with ⟨closer, plain⟩
  refine ⟨tailNext, withinNext, (quotedAt_succ next).symm, ?_, ?_, ?_⟩
  · exact (follows.tracks.skip star (follows.liveRoleAt_inside inside)).skip slash plain
  · intro _
    have stop : commentStop text start = position.cursor.offset + 2 := by
      rw [commentStop, closer]
    rcases comment.seen with ⟨seen, split, past⟩
    refine ⟨seen ++ [start], ?_, ?_⟩
    · rw [split, stop, List.append_assoc]
      rfl
    · intro earlier member
      rcases List.mem_append.mp member with before | last
      · apply (past earlier before).mono
        have behind := comment.behind
        change start ≤ position.cursor.offset + 2
        omega
      · rw [List.mem_singleton.mp last]
        exact ⟨_, closer, Nat.le_refl _⟩
  · intro other same
    cases same

theorem Follows.opensAt_eq (follows : position.Follows text (byte :: rest)) :
    opensAt text position.cursor.offset = position.opensComment byte rest.head? := by
  rcases drop_eq_cons follows.rest with ⟨here, tail, -⟩
  rw [opensAt, Position.opensComment, here, ← follows.quoted, ← List.head?_drop, tail]
  rfl

theorem Follows.inComment_enter (follows : position.Follows text (slash :: star :: later))
    (outside : position.comment = none) (live : position.cursor.nesting.quoted = false) :
    opensAt text position.cursor.offset = true ∧
      inComment text position.cursor.offset = true ∧
      inComment text (position.cursor.offset + 1) = true := by
  have opens : opensAt text position.cursor.offset = true := by
    simp [follows.opensAt_eq, opensComment, live]
  rcases follows.between outside with ⟨seen, split, -⟩
  have member : position.cursor.offset ∈ comments text := by
    simp [split, commentsFrom_of_opensAt opens]
  have stop : position.cursor.offset + 2 ≤ commentStop text position.cursor.offset :=
    le_commentStop (Nat.le_refl _) (lt_length_of_opensAt opens)
  exact ⟨opens, inComment_of_mem member (Nat.le_refl _) (by omega),
    inComment_of_mem member (Nat.le_succ _) (by omega)⟩

theorem Follows.liveRoleAt_enter (follows : position.Follows text (slash :: star :: later))
    (outside : position.comment = none) (live : position.cursor.nesting.quoted = false) :
    opensAt text position.cursor.offset = true ∧
      liveRoleAt text position.cursor.offset = .plain ∧
      liveRoleAt text (position.cursor.offset + 1) = .plain :=
  (follows.inComment_enter outside live).imp_right
    (And.imp liveRoleAt_of_inComment liveRoleAt_of_inComment)

theorem Follows.enter (follows : position.Follows text (slash :: star :: later))
    (outside : position.comment = none) (live : position.cursor.nesting.quoted = false) :
    position.openComment.Follows text later := by
  rcases drop_eq_cons follows.rest with ⟨here, tail, within⟩
  rcases drop_eq_cons tail with ⟨next, tailNext, withinNext⟩
  rcases follows.liveRoleAt_enter outside live with ⟨opens, first, second⟩
  refine ⟨tailNext, withinNext, (quotedAt_succ next).symm, ?_, ?_, ?_⟩
  · exact (follows.tracks.skip slash first).skip star second
  · intro absurd
    cases absurd
  · intro start same
    cases same
    rcases follows.between outside with ⟨seen, split, past⟩
    rw [commentsFrom_of_opensAt opens] at split
    exact ⟨Nat.le_refl _, fun earlier above below =>
      absurd below (Nat.not_lt_of_le above), seen, split, past⟩

theorem Follows.not_inComment (follows : position.Follows text (byte :: rest))
    (outside : position.comment = none)
    (ordinary : position.opensComment byte rest.head? = false) :
    inComment text position.cursor.offset = false := by
  apply (follows.between outside).not_inComment
  rw [follows.opensAt_eq, ordinary]

theorem Follows.roleAt_eq (follows : position.Follows text (byte :: rest)) :
    roleAt text position.cursor.offset = position.cursor.nesting.role byte := by
  rcases drop_eq_cons follows.rest with ⟨here, -, -⟩
  rw [roleAt, ← follows.quoted, here]
  simp [Nesting.role]

theorem Follows.liveRoleAt_eq (follows : position.Follows text (byte :: rest))
    (outside : position.comment = none)
    (ordinary : position.opensComment byte rest.head? = false) :
    liveRoleAt text position.cursor.offset = position.cursor.nesting.role byte := by
  rw [liveRoleAt, follows.not_inComment outside ordinary]
  exact follows.roleAt_eq

theorem Follows.read (follows : position.Follows text (byte :: rest))
    (outside : position.comment = none)
    (ordinary : position.opensComment byte rest.head? = false) :
    (position.read byte).Follows text rest := by
  rcases drop_eq_cons follows.rest with ⟨here, tail, within⟩
  have offset := position.offset_read byte
  refine ⟨offset ▸ tail, offset ▸ within, ?_, ?_, ?_, ?_⟩
  · rw [nesting_read, Nesting.quoted_read, offset, quotedAt_succ here]
  · exact follows.tracks.read (follows.liveRoleAt_eq outside ordinary)
  · intro _
    rcases follows.between outside with ⟨seen, split, past⟩
    rw [offset]
    refine ⟨seen, ?_, fun start member => (past start member).mono (Nat.le_succ _)⟩
    rw [split, commentsFrom_of_not_opensAt]
    rw [follows.opensAt_eq, ordinary]
  · intro start same
    cases outside.symm.trans same

/-- The induction over a text that follows the moves of a scan, with what is
known of the positions it comes to. -/
theorem follows_induction {text : Bytes} {motive : Position → Bytes → Prop}
    (finish : ∀ position, position.Follows text [] → motive position [])
    (close : ∀ position later, position.Follows text (star :: slash :: later) →
      position.comment.isSome →
      motive position.closeComment later → motive position (star :: slash :: later))
    (skip : ∀ position byte rest, position.Follows text (byte :: rest) →
      position.comment.isSome → (byte = star → rest.head? ≠ some slash) →
      motive (position.skip byte) rest → motive position (byte :: rest))
    (enter : ∀ position later, position.Follows text (slash :: star :: later) →
      position.comment = none → position.cursor.nesting.quoted = false →
      motive position.openComment later → motive position (slash :: star :: later))
    (read : ∀ position byte rest, position.Follows text (byte :: rest) →
      position.comment = none → position.opensComment byte rest.head? = false →
      motive (position.read byte) rest → motive position (byte :: rest))
    {position : Position} {rest : Bytes} (follows : position.Follows text rest) :
    motive position rest := by
  induction position, rest using reading_induction with
  | finish position => exact finish position follows
  | close position later inside induction =>
      rcases Option.isSome_iff_exists.mp inside with ⟨start, same⟩
      exact close position later follows inside (induction (follows.close same))
  | skip position byte rest inside going induction =>
      rcases Option.isSome_iff_exists.mp inside with ⟨start, same⟩
      exact skip position byte rest follows inside going (induction (follows.skip same going))
  | enter position later outside live induction =>
      exact enter position later follows outside live (induction (follows.enter outside live))
  | read position byte rest outside ordinary induction =>
      exact read position byte rest follows outside ordinary
        (induction (follows.read outside ordinary))

end Position

end GrammarTidy.Rules
