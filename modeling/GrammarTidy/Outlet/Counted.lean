import GrammarTidy.Outlet

namespace GrammarTidy

/-! How far an outlet lets some chunks get, and an outlet that counts what it
accepted. A chunk counts only when it was accepted whole. -/

namespace Outlet

variable {m : Type → Type} {Refusal : Type} [Monad m]

def counted (outlet : Outlet m Refusal) : Outlet (StateT Nat m) Refusal where
  put chunk := ExceptT.mk fun accepted => do
    match ← (outlet.put chunk).run with
    | .ok () => return (.ok (), accepted + chunk.length)
    | .error refusal => return (.error refusal, accepted)
  note event := fun accepted => do
    outlet.note event
    return ((), accepted)

end Outlet

/-! ## Sinks

A sink is what it answers to a chunk, and what it holds after that. It takes no
notice of events. After a refusal no other chunk is put, and the sink stays as the
refusal left it. -/

variable {σ Refusal α : Type}

def Outlet.ofPut (put : Bytes → σ → Except Refusal Unit × σ) : Outlet (StateM σ) Refusal where
  put chunk := ExceptT.mk (put chunk)
  note _ := pure ()

structure Delivery (σ Refusal : Type) where
  accepted : List Bytes
  refusal : Option Refusal
  held : σ

def deliver (put : Bytes → σ → Except Refusal Unit × σ) : List Bytes → σ → Delivery σ Refusal
  | [], held => { accepted := [], refusal := none, held }
  | chunk :: rest, held =>
      match put chunk held with
      | (.ok (), later) =>
          let delivery := deliver put rest later
          { delivery with accepted := chunk :: delivery.accepted }
      | (.error refusal, later) => { accepted := [], refusal := some refusal, held := later }

/-- What a pass answers: the refusal, if there was one, and its own result
otherwise. -/
def Delivery.answer (delivery : Delivery σ Refusal) (result : Except Fault α) :
    Except (Failure Refusal) α :=
  match delivery.refusal with
  | some refusal => .error (.refused refusal)
  | none => result.mapError .faulty

variable (put : Bytes → σ → Except Refusal Unit × σ)

/-- Either all chunks are taken, or one is refused and those before it are
taken. -/
theorem deliver_cases (chunks : List Bytes) (held : σ) :
    let delivery := deliver put chunks held
    (delivery.refusal = none ∧ delivery.accepted = chunks) ∨
      ∃ chunk rest before refusal, delivery.refusal = some refusal ∧
        chunks = delivery.accepted ++ chunk :: rest ∧
        put chunk before = (.error refusal, delivery.held) := by
  induction chunks generalizing held with
  | nil => exact .inl ⟨rfl, rfl⟩
  | cons chunk rest induction =>
      rw [deliver]
      rcases answer : put chunk held with ⟨refusal | accepted, later⟩
      · exact .inr ⟨chunk, rest, held, refusal, rfl, rfl, answer⟩
      · rcases induction later with ⟨none, all⟩ | ⟨refused, left, before, refusal, some, split, last⟩
        · exact .inl ⟨none, congrArg (chunk :: ·) all⟩
        · exact .inr ⟨refused, left, before, refusal, some, congrArg (chunk :: ·) split, last⟩

/-- A sink that also counts the bytes of the chunks it took. -/
def countedPut (chunk : Bytes) (state : Nat × σ) : Except Refusal Unit × (Nat × σ) :=
  match put chunk state.2 with
  | (.ok (), later) => (.ok (), state.1 + chunk.length, later)
  | (.error refusal, later) => (.error refusal, state.1, later)

theorem deliver_countedPut (chunks : List Bytes) (count : Nat) (held : σ) :
    deliver (countedPut put) chunks (count, held) =
      { accepted := (deliver put chunks held).accepted
        refusal := (deliver put chunks held).refusal
        held := (count + (deliver put chunks held).accepted.flatten.length,
          (deliver put chunks held).held) } := by
  induction chunks generalizing count held with
  | nil => rfl
  | cons chunk rest induction =>
      rw [deliver, deliver, countedPut]
      rcases put chunk held with ⟨refusal | accepted, later⟩
      · rfl
      · simp [induction, Nat.add_assoc]

/-! A memory is a sink that takes every chunk. -/

def memoryPut (chunk : Bytes) (held : Array UInt8) : Except Empty Unit × Array UInt8 :=
  (.ok (), held ++ chunk)

theorem memory_eq_ofPut : Outlet.memory = Outlet.ofPut memoryPut := rfl

theorem deliver_memoryPut (chunks : List Bytes) (held : Array UInt8) :
    deliver memoryPut chunks held =
      { accepted := chunks, refusal := none, held := held ++ chunks.flatten } := by
  induction chunks generalizing held with
  | nil =>
      rw [List.flatten_nil, Array.appendList_nil]
      rfl
  | cons chunk rest induction =>
      rw [deliver, memoryPut]
      dsimp only
      rw [induction, append_append_list, List.flatten_cons]

end GrammarTidy
