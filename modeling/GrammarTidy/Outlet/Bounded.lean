import GrammarTidy.Outlet.Counted

namespace GrammarTidy

/-! Outlets with limited room, which keep what they accept in memory. Of a chunk
that does not fit, one of them keeps nothing, and the other keeps as much as there
is room for. A later chunk that does fit is accepted again. -/

inductive NoRoom where
  | full
  | cutShort
deriving DecidableEq, Repr

def NoRoom.text : NoRoom → String
  | .full => "disk full"
  | .cutShort => "failed to write whole buffer"

namespace Outlet

/-- A chunk fits when the bytes held and the chunk together stay within the
capacity. Without a capacity every chunk fits. -/
def fits (capacity : Option Nat) (held : Array UInt8) (chunk : Bytes) : Bool :=
  match capacity with
  | none => true
  | some most => held.size + chunk.length ≤ most

def bounded (capacity : Option Nat) : Outlet (StateM (Array UInt8)) NoRoom where
  put chunk := ExceptT.mk fun held =>
    if fits capacity held chunk then (.ok (), held ++ chunk)
    else (.error .full, held)
  note _ := pure ()

def filling (capacity : Option Nat) : Outlet (StateM (Array UInt8)) NoRoom where
  put chunk := ExceptT.mk fun held =>
    if fits capacity held chunk then (.ok (), held ++ chunk)
    else (.error .cutShort, held ++ chunk.take (capacity.getD 0 - held.size))
  note _ := pure ()

end Outlet

/-! ## The bounded sink

It takes the chunks that fit as a whole. What it took comes before the first chunk
that does not fit. -/

def boundedPut (capacity : Option Nat) (chunk : Bytes) (held : Array UInt8) :
    Except NoRoom Unit × Array UInt8 :=
  if Outlet.fits capacity held chunk then (.ok (), held ++ chunk) else (.error .full, held)

theorem bounded_eq_ofPut (capacity : Option Nat) :
    Outlet.bounded capacity = Outlet.ofPut (boundedPut capacity) := rfl

theorem deliver_boundedPut (most : Nat) (chunks : List Bytes) (held : Array UInt8) :
    let delivery := deliver (boundedPut (some most)) chunks held
    ∃ rest, chunks = delivery.accepted ++ rest ∧
      delivery.held = held ++ delivery.accepted.flatten ∧
      delivery.held.size ≤ max held.size most ∧
      (rest = [] ∨ ∃ chunk later, rest = chunk :: later ∧
        most < delivery.held.size + chunk.length) := by
  induction chunks generalizing held with
  | nil =>
      refine ⟨[], rfl, ?_, Nat.le_max_left _ _, .inl rfl⟩
      exact Array.appendList_nil.symm
  | cons chunk rest induction =>
      by_cases room : held.size + chunk.length ≤ most
      · have taken : boundedPut (some most) chunk held = (.ok (), held ++ chunk) :=
          if_pos (decide_eq_true room)
        rcases induction (held ++ chunk) with ⟨left, split, holds, size, next⟩
        rw [deliver, taken]
        refine ⟨left, congrArg (chunk :: ·) split, ?_, ?_, next⟩
        · exact holds.trans (append_append_list held chunk _)
        · rw [size_append, Nat.max_eq_right room] at size
          exact Nat.le_trans size (Nat.le_max_right _ _)
      · have refused : boundedPut (some most) chunk held = (.error .full, held) :=
          if_neg (by simpa [Outlet.fits] using room)
        rw [deliver, refused]
        refine ⟨chunk :: rest, rfl, Array.appendList_nil.symm, Nat.le_max_left _ _, .inr ?_⟩
        exact ⟨chunk, rest, rfl, Nat.lt_of_not_le room⟩

end GrammarTidy
