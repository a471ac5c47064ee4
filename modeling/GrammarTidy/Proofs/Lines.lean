import GrammarTidy.Proofs.Hollowing
import GrammarTidy.Proofs.NormalForm

/-! Hollowing leaves every line where it was. What it keeps are bytes at certain
positions of the text, every line break among them, so that a byte that is kept has
as many line breaks before it as it had. -/

namespace GrammarTidy.Hollow

open Byte

/-! ## The positions that are kept -/

def keptAt (text : Bytes) (position : Nat) : Bool :=
  text[position]?.any (keeps (nestingAt text position))

def keptBetween (text : Bytes) (start stop : Nat) : List Nat :=
  (List.range' start (stop - start)).filter (keptAt text)

/-- How far a hollowing got: to the stray brace that it stopped at, or to the
end. -/
def scannedTo (source : Bytes) : Except Fault Tally → Nat
  | .error { kind := .strayClose, location } => location.offset
  | _ => source.length

theorem keeps_of_isLineBreak (nesting : Nesting) {byte : UInt8}
    (breaks : isLineBreak byte = true) : keeps nesting byte = true := by
  rw [keeps, (nesting.read_of_isLineBreak breaks).1, breaks]
  exact Bool.or_true _

theorem keptAt_of_isLineBreak {text : Bytes} {position : Nat} {byte : UInt8}
    (here : text[position]? = some byte) (breaks : isLineBreak byte = true) :
    keptAt text position = true := by
  rw [keptAt, here]
  exact keeps_of_isLineBreak _ breaks

private theorem keptBetween_self (text : Bytes) (start : Nat) :
    keptBetween text start start = [] := by
  rw [keptBetween, Nat.sub_self]
  rfl

private theorem keptBetween_succ (text : Bytes) {start stop : Nat} (before : start < stop) :
    keptBetween text start stop =
      (if keptAt text start then [start] else []) ++ keptBetween text (start + 1) stop := by
  have longer : stop - start = stop - (start + 1) + 1 := by omega
  rw [keptBetween, longer, List.range'_succ, List.filter_cons]
  cases keptAt text start <;> rfl

private theorem keptBetween_append (text : Bytes) {start middle stop : Nat}
    (before : start ≤ middle)
    (after : middle ≤ stop) :
    keptBetween text start stop = keptBetween text start middle ++ keptBetween text middle stop := by
  have halves := List.range'_append_1 (s := start) (m := middle - start) (n := stop - middle)
  have reached : start + (middle - start) = middle := by omega
  have whole : middle - start + (stop - middle) = stop - start := by omega
  rw [reached, whole] at halves
  rw [keptBetween, ← halves, List.filter_append]
  rfl

theorem mem_keptBetween {text : Bytes} {start stop position : Nat} :
    position ∈ keptBetween text start stop ↔
      (start ≤ position ∧ position < stop) ∧ keptAt text position = true := by
  rw [keptBetween, List.mem_filter, List.mem_range'_1]
  constructor
  · rintro ⟨⟨above, below⟩, kept⟩
    exact ⟨⟨above, by omega⟩, kept⟩
  · rintro ⟨⟨above, below⟩, kept⟩
    exact ⟨⟨above, by omega⟩, kept⟩

theorem pairwise_keptBetween (text : Bytes) (start stop : Nat) :
    (keptBetween text start stop).Pairwise (· < ·) :=
  (List.pairwise_lt_range' 1).filter _

private theorem take_keptBetween {text : Bytes} {stop index position : Nat}
    (here : (keptBetween text 0 stop)[index]? = some position) :
    (keptBetween text 0 stop).take index = keptBetween text 0 position := by
  rcases mem_keptBetween.mp (List.mem_of_getElem? here) with ⟨⟨-, below⟩, kept⟩
  have split : keptBetween text 0 stop =
      keptBetween text 0 position ++ position :: keptBetween text (position + 1) stop := by
    rw [keptBetween_append text (Nat.zero_le position) (Nat.le_of_lt below),
      keptBetween_succ text below, if_pos kept]
    rfl
  have distinct : (keptBetween text 0 stop).Nodup :=
    (pairwise_keptBetween text 0 stop).imp Nat.ne_of_lt
  have again : (keptBetween text 0 stop)[(keptBetween text 0 position).length]? =
      some position := by
    rw [split, List.getElem?_append_right (Nat.le_refl _), Nat.sub_self]
    rfl
  have within : (keptBetween text 0 position).length < (keptBetween text 0 stop).length :=
    (List.getElem?_eq_some_iff.mp again).1
  have same : (keptBetween text 0 position).length = index :=
    (List.getElem?_inj within distinct).mp (again.trans here.symm)
  rw [← same, split, List.take_left]

/-! ## Scans and kept positions -/

def walkedTo (text : Bytes) : Scanner.Ending Cursor → Nat
  | .finished _ _ => text.length
  | .rejected defect => defect.offset

/-- What is left of a text are the bytes of its kept positions, up to where the walk
ends. A walk that does not come to the end of the text is rejected for a stray
brace. -/
theorem trace_eq_keptBetween (settings : Settings) {text rest : Bytes} {cursor : Cursor}
    (follows : cursor.Follows text rest) :
    let trace := (scanner settings).trace rest cursor
    let stop := walkedTo text trace.ending
    trace.output.map some = (keptBetween text cursor.offset stop).map (text[·]?) ∧
      cursor.offset ≤ stop ∧ stop ≤ text.length ∧
      ∀ defect, trace.ending = .rejected defect → defect.kind = .strayClose := by
  induction rest generalizing cursor with
  | nil =>
      refine ⟨?_, follows.within, Nat.le_refl _, nofun⟩
      dsimp only [Scanner.trace, walkedTo]
      rw [← follows.offset_eq, keptBetween_self]
      rfl
  | cons byte rest induction =>
      dsimp only
      rw [trace_cons settings]
      cases settings.strict && cursor.strays byte with
      | true =>
          refine ⟨?_, Nat.le_refl _, follows.within, ?_⟩
          · exact congrArg (List.map (text[·]?)) (keptBetween_self text cursor.offset).symm
          · rintro defect ⟨⟩
            rfl
      | false =>
          rcases induction follows.read with ⟨later, behind, within, strays⟩
          rcases drop_eq_cons follows.rest with ⟨here, -, -⟩
          have kept : keptAt text cursor.offset = keeps cursor.nesting byte := by
            rw [keptAt, here, follows.nesting_eq]
            rfl
          rw [cursor.offset_read] at later behind
          simp only [Bool.false_eq_true, if_false, Scanner.Trace.ending_after,
            Scanner.Trace.output_after]
          refine ⟨?_, Nat.le_of_succ_le behind, within, strays⟩
          rw [keptBetween_succ text behind, kept, List.map_append, List.map_append, later]
          apply congrArg (· ++ _)
          cases keeps cursor.nesting byte with
          | true => exact congrArg (· :: []) here.symm
          | false => rfl

/-! ## Line breaks -/

private theorem take_eq_filterMap (text : Bytes) (length : Nat) :
    text.take length = (List.range length).filterMap (text[·]?) := by
  induction length with
  | zero => rfl
  | succ length induction =>
      rw [List.take_add_one, List.range_succ, List.filterMap_append, induction]
      cases here : text[length]? <;> simp [here]

private theorem filter_isLineBreak_of_kept {text kept : Bytes} {stop : Nat}
    (same : kept.map some = (keptBetween text 0 stop).map (text[·]?)) :
    kept.filter isLineBreak = (text.take stop).filter isLineBreak := by
  have bytes : kept = (keptBetween text 0 stop).filterMap (text[·]?) := by
    have unwrapped := congrArg (List.filterMap id) same
    rw [List.filterMap_map, List.filterMap_map] at unwrapped
    exact List.filterMap_some.symm.trans unwrapped
  rw [bytes, take_eq_filterMap, keptBetween, Nat.sub_zero, ← List.range_eq_range',
    List.filterMap_filter, List.filter_filterMap, List.filter_filterMap]
  congr 1
  funext position
  cases here : text[position]? with
  | none => simp
  | some byte =>
      cases breaks : isLineBreak byte with
      | true => rw [keptAt_of_isLineBreak here breaks, if_pos rfl]
      | false =>
          have dropped : (some byte).filter isLineBreak = none := by simp [Option.filter, breaks]
          cases keptAt text position with
          | true => rfl
          | false => exact dropped.symm

/-! ## Whole runs -/

theorem scannedTo_result (settings : Settings) (source : Bytes) :
    scannedTo source (result settings source) =
      walkedTo source ((scanner settings).trace source {}).ending := by
  rcases trace_eq_keptBetween settings (Cursor.follows_initial source) with ⟨-, -, -, strays⟩
  rw [result, Scanner.result]
  cases ending : ((scanner settings).trace source {}).ending with
  | rejected defect =>
      rw [Scanner.verdict_of_rejected ending]
      dsimp only [Defect.locate]
      rw [strays defect ending]
      rfl
  | finished last unread =>
      rw [Scanner.verdict_of_finished ending]
      cases objects : (scanner settings).objection last with
      | none => rfl
      | some defect =>
          have kind : ∃ depth, defect.kind = .unclosedBlock depth := by
            dsimp only [scanner] at objects
            split at objects
            · unfold Cursor.unclosedBlock at objects
              split at objects
              · cases objects
                exact ⟨_, rfl⟩
              · cases objects
            · cases objects
          rcases kind with ⟨depth, kind⟩
          dsimp only [Defect.locate]
          rw [kind]
          rfl

/-- Hollowing leaves bytes of its text, in their order and with all line breaks among
them, as far as it got. So every byte that it leaves has as many newlines before it as
it had in the text, and stands on the same line. -/
theorem run_keeps_lines (settings : Settings) (source : Bytes) :
    let (result, left) := Outlet.inMemory (Hollow.run · settings source)
    let stop := scannedTo source result
    ∃ positions : List Nat,
      positions.Pairwise (· < ·) ∧
      left.map some = positions.map (source[·]?) ∧
      (∀ position < stop, ∀ byte, source[position]? = some byte →
        byte = carriageReturn ∨ byte = newline → position ∈ positions) ∧
      (∀ index position, positions[index]? = some position →
        (left.take index).count newline = (source.take position).count newline) ∧
      left.filter isLineBreak = (source.take stop).filter isLineBreak := by
  rw [inMemory_run]
  dsimp only
  rw [scannedTo_result]
  rcases trace_eq_keptBetween settings (Cursor.follows_initial source) with ⟨kept, -, -, -⟩
  refine ⟨_, pairwise_keptBetween _ _ _, kept, ?_, ?_, filter_isLineBreak_of_kept kept⟩
  · intro position before byte here breaks
    have isBreak : isLineBreak byte = true := by
      rcases breaks with rfl | rfl <;> rfl
    exact mem_keptBetween.mpr ⟨⟨Nat.zero_le _, before⟩, keptAt_of_isLineBreak here isBreak⟩
  · intro index position here
    have front := congrArg (List.take index) kept
    rw [← List.map_take, ← List.map_take, take_keptBetween here] at front
    have breaks := filter_isLineBreak_of_kept front
    have counted := congrArg (List.count newline) breaks
    rw [List.count_filter rfl, List.count_filter rfl] at counted
    exact counted

/-- A carriage return and a newline inside a block behind a quote, and a strict run that
stops before the last newline. -/
example :
    (Outlet.inMemory (Hollow.run · { strict := true } (Bytes.ofText "\x7b'\r\n\x7da\x7d\n"))).2 =
      Bytes.ofText "\x7b\r\n\x7da" := rfl

end GrammarTidy.Hollow
