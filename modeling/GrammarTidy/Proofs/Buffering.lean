import GrammarTidy.Outlet.Buffered
import GrammarTidy.Proofs.Delivery

/-! A pass through a buffer, into an outlet that takes everything. Nothing is lost
between the two: what the outlet holds and what the buffer holds are together what
the pass has put, and at the end the buffer holds nothing. -/

namespace GrammarTidy

variable {m : Type → Type} {Refusal α σ : Type} [Monad m]

def Act.events (acts : List Act) : List Event :=
  acts.filterMap fun
    | .put _ => none
    | .note event => some event

def Script.events (script : Script α) : List Event := Act.events script.acts

def Script.output (script : Script α) : Bytes := script.chunks.flatten

/-! ## A state under failures -/

section Layers

variable {τ ε : Type} [LawfulMonad m]

private theorem run_get (held : τ) :
    (get : ExceptT ε (StateT τ m) τ).run.run held = pure (.ok held, held) := by
  change (Except.ok <$> (get : StateT τ m τ)).run held = _
  rw [StateT.run_map, StateT.run_get, map_pure]

private theorem run_modify (change : τ → τ) (held : τ) :
    (modify change : ExceptT ε (StateT τ m) PUnit).run.run held =
      pure (.ok ⟨⟩, change held) := by
  change (Except.ok <$> (modify change : StateT τ m PUnit)).run held = _
  rw [StateT.run_map, StateT.run_modify, map_pure]

theorem mapError_ok {β ε' : Type} (change : ε → ε') (value : β) :
    (Except.ok value : Except ε β).mapError change = .ok value := rfl

end Layers

namespace Outlet

theorem run_drain (outlet : Outlet m Refusal) (held : Array UInt8) :
    outlet.drain.run.run held =
      if held.isEmpty then pure (.ok (), held) else do
        match ← (outlet.put held.toList).run with
        | .ok () => return (.ok (), #[])
        | .error refusal => return (.error refusal, held) := rfl

theorem observe_drain_empty (outlet : Outlet m Refusal) (view : Observation m σ) (state : σ) :
    view.observe (outlet.drain.run.run #[]) state = ((.ok (), #[]), state) :=
  view.observe_pure _ _

theorem run_buffered_put [LawfulMonad m] (outlet : Outlet m Refusal) (room : Nat)
    (chunk : Bytes) (held : Array UInt8) :
    ((outlet.buffered room).put chunk).run.run held =
      if held.size + chunk.length > room then do
        let (outcome, left) ← outlet.drain.run.run held
        match outcome with
        | .ok () => return (.ok (), left ++ chunk)
        | .error refusal => return (.error refusal, left)
      else
        return (.ok (), held ++ chunk) := by
  unfold buffered
  rw [ExceptT.run_bind, StateT.run_bind, run_get, pure_bind]
  by_cases full : held.size + chunk.length > room
  · rw [if_pos full]
    dsimp only
    rw [if_pos full, ExceptT.run_bind, StateT.run_bind]
    congr 1
    funext outcome
    rcases outcome with ⟨refusal | drained, left⟩
    · rfl
    · exact run_modify _ _
  · rw [if_neg full]
    dsimp only
    rw [if_neg full]
    exact run_modify _ _

theorem observe_buffered_note (outlet : Outlet m Refusal) (view : Observation m σ) (room : Nat)
    (event : Event) (held : Array UInt8) (state : σ) :
    (view.layer (Array UInt8)).observe ((outlet.buffered room).note event) (held, state) =
      ((), held, (view.observe (outlet.note event) state).2) := by
  have run : ((outlet.buffered room).note event).run held = (do
      outlet.note event
      return ((), held)) := rfl
  rw [Observation.observe_layer, run, view.observe_bind, view.observe_pure]

/-! ## Outlets that take everything -/

/-- An outlet that takes every chunk and hears every event. Its state shows what it
has taken and heard. -/
structure Takes (outlet : Outlet m Refusal) (view : Observation m σ)
    (holds : Bytes → List Event → σ → Prop) : Prop where
  put : ∀ {written events state} (chunk : Bytes), holds written events state →
    ∃ later, view.observe (outlet.put chunk).run state = (.ok (), later) ∧
      holds (written ++ chunk) events later
  note : ∀ {written events state} (event : Event), holds written events state →
    ∃ later, view.observe (outlet.note event) state = ((), later) ∧
      holds written (events ++ [event]) later

/-- What is put through a buffer is in the buffer or behind it. -/
def Buffers (holds : Bytes → List Event → σ → Prop) (put : Bytes) (events : List Event)
    (state : Array UInt8 × σ) : Prop :=
  ∃ written, written ++ state.1.toList = put ∧ holds written events state.2

variable {outlet : Outlet m Refusal} {view : Observation m σ}
  {holds : Bytes → List Event → σ → Prop} {written : Bytes} {events : List Event} {state : σ}

theorem Takes.drain (takes : outlet.Takes view holds) (held : Array UInt8)
    (start : holds written events state) :
    ∃ later, view.observe (outlet.drain.run.run held) state = ((.ok (), #[]), later) ∧
      holds (written ++ held.toList) events later := by
  rw [run_drain]
  by_cases empty : held.isEmpty
  · rw [if_pos empty, view.observe_pure]
    have none : held = #[] := Array.isEmpty_iff.mp empty
    rw [none, List.append_nil]
    exact ⟨state, rfl, start⟩
  · rw [if_neg empty, view.observe_bind]
    rcases takes.put held.toList start with ⟨later, put, holds⟩
    rw [put, view.observe_pure]
    exact ⟨later, rfl, holds⟩

theorem Takes.buffered [LawfulMonad m] (takes : outlet.Takes view holds) (room : Nat) :
    (outlet.buffered room).Takes (view.layer (Array UInt8)) (Buffers holds) where
  put := by
    intro put events state chunk start
    rcases state with ⟨held, state⟩
    rcases start with ⟨written, rfl, start⟩
    rw [Observation.observe_layer, run_buffered_put]
    by_cases full : held.size + chunk.length > room
    · rcases takes.drain held start with ⟨later, drained, holds⟩
      rw [if_pos full, view.observe_bind, drained, view.observe_pure]
      refine ⟨(#[] ++ chunk, later), rfl, written ++ held.toList, ?_, holds⟩
      simp
    · rw [if_neg full, view.observe_pure]
      refine ⟨(held ++ chunk, state), rfl, written, ?_, start⟩
      simp
  note := by
    intro put events state event start
    rcases state with ⟨held, state⟩
    rcases start with ⟨written, split, start⟩
    rcases takes.note event start with ⟨later, noted, holds⟩
    rw [observe_buffered_note, noted]
    exact ⟨(held, later), rfl, written, split, holds⟩

variable [LawfulMonad m]

theorem Takes.perform (takes : outlet.Takes view holds) (acts : List Act)
    (start : holds written events state) :
    ∃ later, view.observe (outlet.perform acts).run state = (.ok (), later) ∧
      holds (written ++ (Act.chunks acts).flatten) (events ++ Act.events acts) later := by
  induction acts generalizing written events state with
  | nil =>
      have nothing : Act.chunks [] = [] := rfl
      have silence : Act.events [] = [] := rfl
      rw [nothing, silence, List.flatten_nil, List.append_nil, List.append_nil]
      exact ⟨state, view.observe_pure _ _, start⟩
  | cons act rest induction =>
      cases act with
      | put chunk =>
          rcases takes.put chunk start with ⟨middle, put, holds⟩
          rcases induction holds with ⟨later, performed, done⟩
          refine ⟨later, ?_, ?_⟩
          · rw [outlet.observe_perform_put, put]
            exact performed
          · rw [List.append_assoc] at done
            exact done
      | note event =>
          rcases takes.note event start with ⟨middle, noted, holds⟩
          rcases induction holds with ⟨later, performed, done⟩
          refine ⟨later, ?_, ?_⟩
          · rw [outlet.observe_perform_note, noted]
            exact performed
          · rw [List.append_assoc] at done
            exact done

theorem Takes.play (takes : outlet.Takes view holds) (script : Script α)
    (start : holds written events state) :
    ∃ later, view.observe (script.play outlet).run state =
        (script.result.mapError .faulty, later) ∧
      holds (written ++ script.output) (events ++ script.events) later := by
  rcases takes.perform script.acts start with ⟨later, performed, done⟩
  refine ⟨later, ?_, done⟩
  rw [script.observe_play, performed]

/-! ## Runs through a buffer -/

theorem observe_drain_after (outlet : Outlet m Refusal) (view : Observation m σ)
    (scan : ExceptT (Failure Refusal) (StateT (Array UInt8) m) α) (state : Array UInt8 × σ) :
    (view.layer (Array UInt8)).observe (do
        let result ← scan
        outlet.drain.adapt .refused
        return result : ExceptT (Failure Refusal) (StateT (Array UInt8) m) α).run state =
      match (view.layer (Array UInt8)).observe scan.run state with
      | (.error failure, held, middle) => (.error failure, held, middle)
      | (.ok value, held, middle) =>
          match view.observe (outlet.drain.run.run held) middle with
          | ((.ok (), left), later) => (.ok value, left, later)
          | ((.error refusal, left), later) => (.error (.refused refusal), left, later) := by
  have adapted : (outlet.drain.adapt Failure.refused).run =
      Except.mapError Failure.refused <$> outlet.drain.run := rfl
  rw [ExceptT.run_bind, Observation.observe_bind]
  rcases (view.layer (Array UInt8)).observe scan.run state with
    ⟨failure | value, held, middle⟩
  · exact Observation.observe_pure _ _ _
  · have layered := view.observe_layer outlet.drain.run held middle
    change (view.layer (Array UInt8)).observe
      ((outlet.drain.adapt Failure.refused).run >>= _) (held, middle) = _
    rw [adapted, bind_map_left, Observation.observe_bind, layered]
    dsimp only
    rcases view.observe (outlet.drain.run.run held) middle with ⟨⟨refusal | drained, left⟩, later⟩
    · exact Observation.observe_pure _ _ _
    · exact Observation.observe_pure _ _ _

omit [LawfulMonad m] in
theorem observe_withBuffer (outlet : Outlet m Refusal) (view : Observation m σ) (room : Nat)
    (script : Script α) (state : σ) :
    view.observe (outlet.withBuffer room script.play).run state =
      match (view.layer (Array UInt8)).observe (do
          let result ← script.play (outlet.buffered room)
          outlet.drain.adapt .refused
          return result : ExceptT (Failure Refusal) (StateT (Array UInt8) m) α).run
        (#[], state) with
      | (outcome, held, middle) =>
          (outcome, (view.observe (outlet.drain.run.run held) middle).2) := by
  change view.observe (_ >>= fun _ => outlet.drain.run.run _ >>= fun _ => pure _) state = _
  rw [view.observe_bind, view.observe_bind, view.observe_pure]
  rfl

/-- Through a buffer, an outlet that takes everything gets all that a script puts,
however the script ends. -/
theorem Takes.withBuffer (takes : outlet.Takes view holds) (room : Nat) (script : Script α)
    (start : holds written events state) :
    ∃ later, view.observe (outlet.withBuffer room script.play).run state =
        (script.result.mapError .faulty, later) ∧
      holds (written ++ script.output) (events ++ script.events) later := by
  have empty : Buffers holds written events ((#[], state) : Array UInt8 × σ) :=
    ⟨written, List.append_nil written, start⟩
  rcases (takes.buffered room).play script empty with
    ⟨⟨held, middle⟩, played, behind, split, reached⟩
  rcases takes.drain held reached with ⟨later, drained, done⟩
  rw [split] at done
  refine ⟨later, ?_, done⟩
  rw [observe_withBuffer, observe_drain_after, played]
  cases script.result with
  | error fault => exact congrArg (fun ended => (_, ended.2)) drained
  | ok value =>
      rw [mapError_ok]
      dsimp only
      rw [drained]
      exact congrArg (fun ended => (_, ended.2)) (outlet.observe_drain_empty view later)

end Outlet

end GrammarTidy
