import GrammarTidy.Command.Run
import GrammarTidy.Json.Schema
import GrammarTidy.Machine
import GrammarTidy.Main
import GrammarTidy.Outlet.Bounded
import GrammarTidy.Outlet.Counted
import GrammarTidy.Proofs.Agreement
import GrammarTidy.Proofs.Delivery
import GrammarTidy.Proofs.Diagnosis
import GrammarTidy.Proofs.Edits
import GrammarTidy.Proofs.Hollowing
import GrammarTidy.Proofs.Settling
import GrammarTidy.Proofs.Stability
import GrammarTidy.Proofs.Strictness
import GrammarTidy.Proofs.Tallies
import GrammarTidy.Proofs.Buffering
import GrammarTidy.Proofs.FileEffects
import GrammarTidy.Proofs.Balance
import GrammarTidy.Proofs.CommandLine
import GrammarTidy.Proofs.Lexemes
import GrammarTidy.Proofs.RoundTrip
import GrammarTidy.Proofs.Positional
import GrammarTidy.Proofs.Markers
import GrammarTidy.Proofs.NormalForm
import GrammarTidy.Proofs.Lines
import GrammarTidy.Proofs.Boundaries
import GrammarTidy.Proofs.Refusals
import GrammarTidy.Proofs.Spellings
import GrammarTidy.Proofs.Steps
import GrammarTidy.Proofs.Coordinates
import GrammarTidy.Proofs.Bounds
