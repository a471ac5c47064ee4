import GrammarTidy.Proofs.Steps

/-! How long the output of a pass can be. Every byte that is put is paid for by a byte that
was read: by itself, by the separator that it belongs to, or by a blank that was left out
before. -/

namespace GrammarTidy

open Byte

/-! ## What a walk pays for -/

/-- A move that puts no more than a budget, and leaves enough of it for the text that is
left. -/
def Move.Pays {State : Type} (budget : Nat) (price : State → Bytes → Nat) (rest : Bytes) :
    Move State → Prop
  | .one chunks next => Scanner.chunkBytes chunks + price next rest ≤ budget
  | .two chunks next => Scanner.chunkBytes chunks + price next rest.tail ≤ budget
  | .stop chunks _ => Scanner.chunkBytes chunks ≤ budget
  | .reject _ => True

private theorem Scanner.length_output_after {State : Type} (trace : Trace State)
    (chunks : List Bytes) :
    (trace.after chunks).output.length = chunkBytes chunks + trace.output.length := by
  rw [Trace.output_after, List.length_append]
  rfl

theorem Scanner.length_output_le {State : Type} {scanner : Scanner State}
    (price : State → Bytes → Nat)
    (moves : ∀ state byte rest,
      (scanner.move state byte rest.head?).Pays (price state (byte :: rest)) price rest)
    (rest : Bytes) (state : State) :
    (scanner.trace rest state).output.length ≤ price state rest := by
  fun_induction scanner.trace rest state with
  | case1 state => exact Nat.zero_le _
  | case2 byte rest state chunks next move induction =>
      have paid := moves state byte rest
      rw [move] at paid
      rw [length_output_after]
      exact Nat.le_trans (Nat.add_le_add_left induction _) paid
  | case3 byte state chunks next move =>
      have paid := moves state byte []
      rw [move] at paid
      exact Nat.le_trans (Nat.le_add_right _ _) paid
  | case4 byte state chunks next skipped later move induction =>
      have paid := moves state byte (skipped :: later)
      rw [move] at paid
      rw [length_output_after]
      exact Nat.le_trans (Nat.add_le_add_left induction _) paid
  | case5 byte rest state chunks last move =>
      have paid := moves state byte rest
      rw [move] at paid
      exact paid
  | case6 byte rest state defect move => exact Nat.zero_le _

private theorem chunkBytes_of_kept (kept : Bool) (byte : UInt8) :
    Scanner.chunkBytes (if kept then [[byte]] else []) ≤ 1 := by
  cases kept with
  | true => exact Nat.le_refl 1
  | false => exact Nat.zero_le 1

theorem Hollow.length_output_le (settings : Settings) (source : Bytes) :
    (output settings source).length ≤ source.length := by
  refine Scanner.length_output_le (fun (_ : Cursor) rest => rest.length) ?moves source {}
  intro cursor byte rest
  dsimp only [scanner]
  cases settings.strict && cursor.strays byte with
  | true => trivial
  | false =>
      change _ + rest.length ≤ rest.length + 1
      rw [Nat.add_comm]
      exact Nat.add_le_add_left (chunkBytes_of_kept _ byte) _

/-! ## The rules -/

namespace Rules

/-- The most that the layout of a text can come to: two bytes more for each of the
separators that end a line, and one byte more for each bar. -/
def layoutBound (text : Bytes) : Nat :=
  text.length + 2 * (text.count semicolon + text.count colon) + text.count bar

private theorem layoutBound_cons (byte : UInt8) (rest : Bytes) :
    layoutBound (byte :: rest) = layoutBound [byte] + layoutBound rest := by
  simp only [layoutBound, List.count_cons, List.length_cons, List.count_nil, List.length_nil]
  omega

private theorem layoutBound_pos (byte : UInt8) : 1 ≤ layoutBound [byte] := by
  simp only [layoutBound, List.length_singleton]
  omega

private theorem layoutBound_singleton_le (byte : UInt8) : layoutBound [byte] ≤ 3 := by
  by_cases ends : byte = semicolon
  · subst ends
    decide
  by_cases starts : byte = colon
  · subst starts
    decide
  by_cases turns : byte = bar
  · subst turns
    decide
  · simp [layoutBound, ends, starts, turns]

theorem layoutBound_le (text : Bytes) : layoutBound text ≤ 3 * text.length := by
  induction text with
  | nil => exact Nat.le_refl 0
  | cons byte rest induction =>
      rw [layoutBound_cons, List.length_cons, Nat.mul_succ, Nat.add_comm]
      exact Nat.add_le_add induction (layoutBound_singleton_le byte)

/-- A blank puts nothing where it stands, and pays for the space that may come in front of
the next byte. -/
def blankCredit (previous : UInt8) : Nat := (isBlank previous).toNat

private theorem blankCredit_le (byte : UInt8) : blankCredit byte ≤ layoutBound [byte] :=
  Nat.le_trans (Bool.toNat_le _) (layoutBound_pos byte)

private theorem length_openLayout_add_le (quoted : Bool) (previous byte : UInt8) :
    (openLayout quoted (isBlank previous) byte).length + blankCredit byte ≤
      layoutBound [byte] + blankCredit previous := by
  unfold openLayout
  split
  · next ends =>
      rw [ends.1]
      exact Nat.le_add_right 3 _
  split
  · next starts =>
      rw [starts.1]
      exact Nat.le_add_right 3 _
  split
  · next turns =>
      rw [turns.1]
      exact Nat.le_add_right 2 _
  split
  · rw [List.length_nil, Nat.zero_add]
    exact Nat.le_add_right_of_le (blankCredit_le byte)
  next visible =>
    rcases not_or.mp visible with ⟨notSpace, others⟩
    have silent : blankCredit byte = 0 := by
      simp [blankCredit, isBlank, notSpace, (not_or.mp others).1]
    rw [silent, blankCredit]
    cases isBlank previous with
    | true => exact Nat.succ_le_succ (layoutBound_pos byte)
    | false => exact layoutBound_pos byte

private theorem chunkBytes_chunks_add_le (nesting : Nesting) (previous byte : UInt8) :
    Scanner.chunkBytes (chunks nesting previous byte) + blankCredit byte ≤
      layoutBound [byte] + blankCredit previous := by
  rw [Scanner.chunkBytes, flatten_chunks_eq]
  split
  · exact length_openLayout_add_le nesting.quoted previous byte
  · rw [List.length_nil, Nat.zero_add]
    exact Nat.le_add_right_of_le (blankCredit_le byte)

/-- The most that a scan can still put. The byte before it counts also when it stood in a
comment or a block. -/
def price (position : Position) (rest : Bytes) : Nat :=
  layoutBound rest + blankCredit position.previous

private theorem price_skip_le (position : Position) (byte : UInt8) (rest : Bytes) :
    price (position.skip byte) rest ≤ price position (byte :: rest) := by
  have paid := blankCredit_le byte
  rw [price, price, layoutBound_cons]
  change _ + blankCredit byte ≤ _
  omega

theorem length_output_le (settings : Settings) (source : Bytes) :
    (output settings source).length ≤ layoutBound source := by
  refine Scanner.length_output_le price ?moves source {}
  intro position byte rest
  have way := moves settings position byte rest
  generalize (scanner settings).move position byte rest.head? = move at way ⊢
  cases way with
  | close inside =>
      change 0 + price ((position.skip star).skip slash) _ ≤ _
      rw [Nat.zero_add]
      exact Nat.le_trans (price_skip_le _ _ _) (price_skip_le _ _ _)
  | skip inside going =>
      change 0 + price (position.skip byte) _ ≤ _
      rw [Nat.zero_add]
      exact price_skip_le position byte rest
  | stray outside strict strays => trivial
  | enter outside live =>
      change 0 + price ((position.skip slash).skip star) _ ≤ _
      rw [Nat.zero_add]
      exact Nat.le_trans (price_skip_le _ _ _) (price_skip_le _ _ _)
  | read outside ordinary =>
      have paid := chunkBytes_chunks_add_le position.cursor.nesting position.previous byte
      rw [price, layoutBound_cons]
      change _ + (_ + blankCredit byte) ≤ _
      omega

/-- Separators alone come to all of the bound. -/
example : (output {} [semicolon, colon, bar]).length =
    layoutBound [semicolon, colon, bar] := rfl

end Rules

/-! ## The declarations -/

namespace Declarations

/-- Inside a block at least the brace that opened it was not kept. -/
def dropped (nesting : Nesting) : Nat := if nesting.depth = 0 then 0 else 1

private theorem dropped_le (nesting : Nesting) : dropped nesting ≤ 1 := by
  unfold dropped
  split
  · exact Nat.zero_le 1
  · exact Nat.le_refl 1

private theorem dropped_read_of_keeps {nesting : Nesting} {byte : UInt8}
    (kept : keeps nesting byte = true) : dropped (nesting.read byte) = 0 := by
  simp only [keeps, Bool.and_eq_true, decide_eq_true_eq] at kept
  rw [Nesting.read, kept.1]
  exact if_pos kept.2

private theorem chunkBytes_add_dropped_le (nesting : Nesting) (byte : UInt8) :
    Scanner.chunkBytes (if keeps nesting byte then [[byte]] else []) +
      dropped (nesting.read byte) ≤ 1 + dropped nesting := by
  cases kept : keeps nesting byte with
  | true =>
      rw [dropped_read_of_keeps kept]
      exact Nat.le_add_right 1 _
  | false =>
      change 0 + _ ≤ _
      rw [Nat.zero_add]
      exact Nat.le_add_right_of_le (dropped_le _)

private theorem chunkBytes_add_dropped_of_half {settings : Settings} {nesting : Nesting}
    {byte : UInt8}
    (half : isMarkerHalf settings nesting byte = true) :
    Scanner.chunkBytes (if keeps nesting byte then [[byte]] else []) +
      2 * dropped (nesting.read byte) ≤ 1 + dropped nesting := by
  have percent : byte = percent := by simpa using (Bool.and_eq_true_iff.mp half).1
  cases kept : keeps nesting byte with
  | true =>
      rw [dropped_read_of_keeps kept]
      exact Nat.le_add_right 1 _
  | false =>
      have plain : nesting.role byte = .plain := by
        rw [percent, Nesting.role]
        cases nesting.quoted <;> rfl
      have inside : dropped nesting = 1 := by
        apply if_neg
        simpa [keeps, plain] using kept
      have most := dropped_le (nesting.read byte)
      rw [inside]
      change 0 + _ ≤ 2
      omega

/-- What a scan of the declarations puts is no longer than what it reads, except that it
puts two bytes more behind a marker. At a marker in a block it has kept at least two bytes
less. -/
inductive Position.Puts (position : Position) (rest : Bytes) : Scanner.Trace Position → Prop
  | unmarked {trace : Scanner.Trace Position}
      (absent : ∀ last unread, trace.ending = .finished last unread → last.rulesStart = none)
      (short : trace.output.length ≤ rest.length) : Puts position rest trace
  | marked {front : List Bytes} {last : Position} {unread : Bytes} {start : Nat}
      (found : last.rulesStart = some start)
      (within : start ≤ position.cursor.offset + rest.length)
      (short : position.cursor.offset + front.flatten.length + 2 * dropped last.cursor.nesting ≤
        start + dropped position.cursor.nesting) :
      Puts position rest { chunks := front ++ [markerBreak], ending := .finished last unread }

private theorem Position.Puts.after {settings : Settings} {position : Position} {byte : UInt8}
    {rest : Bytes} {trace : Scanner.Trace Position}
    (puts : (position.read settings byte).Puts rest trace) :
    position.Puts (byte :: rest)
      (trace.after (if keeps position.cursor.nesting byte then [[byte]] else [])) := by
  have most := chunkBytes_of_kept (keeps position.cursor.nesting byte) byte
  have paid := chunkBytes_add_dropped_le position.cursor.nesting byte
  generalize (if keeps position.cursor.nesting byte then [[byte]] else []) = chunks at most paid ⊢
  cases puts with
  | unmarked absent short =>
      refine .unmarked absent ?_
      rw [Scanner.length_output_after, List.length_cons, Nat.add_comm]
      exact Nat.add_le_add short most
  | @marked front last unread start found within short =>
      have joined : (chunks ++ front).flatten.length =
          Scanner.chunkBytes chunks + front.flatten.length := by
        rw [List.flatten_append, List.length_append]
        rfl
      rw [cursor_read, Cursor.offset_read] at within short
      rw [Cursor.nesting_read] at short
      rw [Scanner.Trace.after, ← List.append_assoc]
      apply marked found
      · rw [List.length_cons]
        omega
      · rw [joined]
        omega

theorem puts_trace (settings : Settings) (rest : Bytes) (position : Position)
    (unmarked : position.rulesStart = none) :
    position.Puts rest ((scanner settings).trace rest position) := by
  induction rest generalizing position with
  | nil =>
      refine .unmarked ?_ (Nat.zero_le 0)
      intro last unread finished
      cases finished
      exact unmarked
  | cons byte rest induction =>
      rw [trace_cons]
      cases settings.strict && position.cursor.strays byte with
      | true => exact .unmarked nofun (Nat.zero_le _)
      | false =>
          cases ends : position.endsMarker settings byte with
          | true =>
              have paid := chunkBytes_add_dropped_of_half (Bool.and_eq_true_iff.mp ends).1
              apply Position.Puts.marked rfl
              · exact Nat.add_le_add_left (Nat.le_add_left 1 _) _
              · rw [Position.cursor_endAt, Cursor.nesting_read, Nat.add_assoc, Nat.add_assoc]
                exact Nat.add_le_add_left paid _
          | false => exact (induction (position.read settings byte) unmarked).after

private theorem trace_cases (settings : Settings) (source : Bytes) :
    let trace := (scanner settings).trace source {}
    ((∀ last unread, trace.ending = .finished last unread → last.rulesStart = none) ∧
        trace.output.length ≤ source.length) ∨
      ∃ front last unread start,
        trace = { chunks := front ++ [markerBreak], ending := .finished last unread } ∧
        last.rulesStart = some start ∧ start ≤ source.length ∧
        front.flatten.length + 2 * dropped last.cursor.nesting ≤ start := by
  have puts := puts_trace settings source {} rfl
  generalize (scanner settings).trace source {} = trace at puts ⊢
  cases puts with
  | unmarked absent short => exact .inl ⟨absent, short⟩
  | @marked front last unread start found within short =>
      rw [Nat.zero_add] at within
      rw [Nat.zero_add] at short
      exact .inr ⟨front, last, unread, start, rfl, found, within, short⟩

/-- Only behind a marker that it tells of does a scan put more than it reads. A scan that
fails although it has put the break objects to a block, which has kept both halves of the
marker out. -/
theorem length_output_le (settings : Settings) (source : Bytes) :
    match result settings source with
    | .ok (some start, _) =>
        start ≤ source.length ∧ (output settings source).length ≤ start + 2
    | _ => (output settings source).length ≤ source.length := by
  rcases trace_cases settings source with
    ⟨absent, short⟩ | ⟨front, last, unread, start, traced, found, within, short⟩
  · split
    · next start tally ok =>
        rcases Scanner.exists_verdict ok with ⟨last, verdict, told⟩
        rcases Scanner.finished_of_verdict verdict with ⟨unread, finished⟩
        rw [absent last unread finished] at told
        cases told
    · exact short
  · have finished : ((scanner settings).trace source (scanner settings).initial).ending =
        .finished last unread := congrArg Scanner.Trace.ending traced
    have parts : (output settings source).length = front.flatten.length + 2 := by
      rw [output, traced, Scanner.Trace.output, List.flatten_append, List.length_append]
      rfl
    rw [parts, result, Scanner.result, Scanner.verdict_of_finished finished]
    cases objects : (scanner settings).objection last with
    | none =>
        dsimp only
        rw [found]
        dsimp only
        omega
    | some defect =>
        have inside : dropped last.cursor.nesting = 1 := by
          apply if_neg
          intro outside
          simp [scanner, Cursor.unclosedBlock, outside] at objects
        dsimp only
        omega

theorem length_flatten_le_of_trace (settings : Settings) {source chunk : Bytes}
    {accepted later : List Bytes}
    (parts : ((scanner settings).trace source {}).chunks = accepted ++ chunk :: later) :
    accepted.flatten.length ≤ source.length := by
  rcases trace_cases settings source with
    ⟨-, short⟩ | ⟨front, last, unread, start, traced, -, within, short⟩
  · rw [Scanner.Trace.output, parts, List.flatten_append, List.length_append] at short
    exact Nat.le_of_add_right_le short
  · rw [traced] at parts
    have counts := congrArg List.length parts
    simp only [List.length_append, List.length_cons, List.length_nil] at counts
    have breakLeft : accepted <+: front := by
      apply List.prefix_of_prefix_length_le ⟨chunk :: later, rfl⟩ ⟨[markerBreak], parts⟩
      omega
    rcases breakLeft with ⟨others, rfl⟩
    rw [List.flatten_append, List.length_append] at short
    omega

end Declarations

/-! ## Whole files -/

/-- The two bytes of a marker pay for the break behind it. -/
theorem Tidy.length_output_le (settings : Settings) (source : Bytes) :
    (output settings source).length ≤ 3 * source.length := by
  have declared := Declarations.length_output_le settings source
  rw [output, List.length_append]
  rcases found : Declarations.result settings source with fault | ⟨_ | start, tally⟩
  · rw [found] at declared
    dsimp only [List.length_nil] at declared ⊢
    omega
  · rw [found] at declared
    dsimp only [List.length_nil] at declared ⊢
    omega
  · rw [found] at declared
    rcases Option.map_eq_some_iff.mp (Declarations.counts_of_result found).1.symm with
      ⟨before, -, rfl⟩
    have ruled := Nat.le_trans (Rules.length_output_le settings (source.drop (before + 2)))
      (Rules.layoutBound_le _)
    rw [List.length_drop] at ruled
    dsimp only at declared ⊢
    omega

end GrammarTidy
