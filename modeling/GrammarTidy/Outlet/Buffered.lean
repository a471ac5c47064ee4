import GrammarTidy.Outlet

namespace GrammarTidy.Outlet

/-! A buffer between a scan and its outlet, so that the outlet gets few large
chunks instead of many small ones. -/

variable {m : Type → Type} {Refusal : Type} [Monad m]

/-- Pass on what the buffer holds. An empty buffer passes nothing on, and a
buffer whose contents are refused keeps them. -/
def drain (outlet : Outlet m Refusal) : ExceptT Refusal (StateT (Array UInt8) m) Unit :=
  ExceptT.mk fun held => do
    if held.isEmpty then
      return (.ok (), held)
    else
      match ← (outlet.put held.toList).run with
      | .ok () => return (.ok (), #[])
      | .error refusal => return (.error refusal, held)

/-- Hold chunks back while they fit into `room` bytes. A chunk that does not fit
first has the buffer passed on, and is then held back itself. -/
def buffered (outlet : Outlet m Refusal) (room : Nat) :
    Outlet (StateT (Array UInt8) m) Refusal where
  put chunk := do
    let held : Array UInt8 ← get
    if held.size + chunk.length > room then
      outlet.drain
    modify fun held : Array UInt8 => held ++ chunk
  note event := fun held => do
    outlet.note event
    return ((), held)

/-- Run a scan into a buffer before the outlet. When the scan has finished, the
buffer is passed on, which may still be refused. When anything failed, what the
buffer holds is passed on all the same, but nobody hears of a refusal then: the
first failure is the one that counts. -/
def withBuffer {α : Type} (outlet : Outlet m Refusal) (room : Nat)
    (scan : Outlet (StateT (Array UInt8) m) Refusal →
      ExceptT (Failure Refusal) (StateT (Array UInt8) m) α) :
    ExceptT (Failure Refusal) m α :=
  ExceptT.mk do
    let body : ExceptT (Failure Refusal) (StateT (Array UInt8) m) α := do
      let result ← scan (outlet.buffered room)
      outlet.drain.adapt .refused
      return result
    let (outcome, held) ← body.run.run #[]
    let _ ← outlet.drain.run.run held
    return outcome

end GrammarTidy.Outlet
