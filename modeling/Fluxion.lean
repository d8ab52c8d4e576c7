import Fluxion.Derivative.Expansion
import Fluxion.Drawing
import Fluxion.Fault.Detail
import Fluxion.Forest.Equivalence
import Fluxion.Forest.Text
import Fluxion.Journal.Sinks
import Fluxion.Proofs.Arithmetic.Naturals
import Fluxion.Proofs.Arithmetic.Packing
import Fluxion.Proofs.Arithmetic.Signals
import Fluxion.Proofs.Calls
import Fluxion.Proofs.Decimal.Numerals
import Fluxion.Proofs.Derivative.Construction
import Fluxion.Proofs.Derivative.Expansion
import Fluxion.Proofs.Derivative.Jet
import Fluxion.Proofs.Derivative.Polynomial
import Fluxion.Proofs.Derivative.Real
import Fluxion.Proofs.Derivative.Sequence
import Fluxion.Proofs.Derivative.Soundness
import Fluxion.Proofs.Forest.Acyclic
import Fluxion.Proofs.Forest.BondedEdits
import Fluxion.Proofs.Forest.Bonds
import Fluxion.Proofs.Forest.Context
import Fluxion.Proofs.Forest.SafeEdits
import Fluxion.Proofs.Infix.Completeness
import Fluxion.Proofs.Infix.Recognition
import Fluxion.Proofs.Polish.Reading
import Fluxion.Proofs.Polish.RoundTrip
import Fluxion.Proofs.Polish.Spots
import Fluxion.Proofs.Runs
import Fluxion.Proofs.Simplification.Identity
import Fluxion.Proofs.Simplification.Preservation
import Fluxion.Proofs.Simplification.Settling
import Fluxion.Proofs.Forest.Packed
import Fluxion.Proofs.Reports
import Fluxion.Proofs.Simplification.Rest
import Fluxion.Proofs.Derivative.Composition
import Fluxion.Proofs.Derivative.Outcomes
import Fluxion.Proofs.Arithmetic.Ordinary
import Fluxion.Proofs.Invariants
import Fluxion.Proofs.Forest.Numbers
import Fluxion.Proofs.Simplification.Counting
import Fluxion.Proofs.Literals
import Fluxion.Proofs.Simplification.Sparing
import Fluxion.Proofs.Simplification.Failure
import Fluxion.Proofs.Polish.Grammar
import Fluxion.Proofs.Polish.Rereading
import Fluxion.Proofs.Polish.Reencoding
import Fluxion.Proofs.Forest.Agreement
import Fluxion.Proofs.Forest.Laid
import Fluxion.Proofs.Forest.Variables
import Fluxion.Proofs.Forest.Upheld
import Fluxion.Proofs.Simplification.Upheld
import Fluxion.Proofs.Derivative.Upheld
import Fluxion.Proofs.Operations
import Fluxion.Proofs.Forest.Consistent
import Fluxion.Proofs.Uses
import Fluxion.Proofs.Registrations
import Fluxion.Proofs.Forest.Sized
import Fluxion.Proofs.Transformations
import Fluxion.Proofs.Derivative.Table
import Fluxion.Proofs.Forest.Substitution
import Fluxion.Proofs.Forest.Beside
import Fluxion.Proofs.Derivative.Exchange
import Fluxion.Proofs.Simplification.OnePass
import Fluxion.Proofs.Simplification.Normal
import Fluxion.Proofs.Simplification.Closed
import Fluxion.Proofs.Evaluation.Recursion
import Fluxion.Proofs.Evaluation.Steps
import Fluxion.Proofs.Forest.Collection
import Fluxion.Proofs.Derivative.Announcement
import Fluxion.Proofs.Forest.Duplicates
import Fluxion.Proofs.Failures
import Fluxion.Proofs.Polish.Recognition
import Fluxion.Proofs.Infix.Stages
import Fluxion.Proofs.Infix.Rejection
import Fluxion.Proofs.Forest.Replacement
import Fluxion.Proofs.Drawing.Connectors
import Fluxion.Proofs.Drawing.Lines
import Fluxion.Proofs.Text.Division
import Fluxion.Proofs.Drawing.Faithful
import Fluxion.Proofs.Text.Braces
import Fluxion.Proofs.Typesetting.Phrases
import Fluxion.Proofs.Typesetting.Readable
import Fluxion.Proofs.Narration
import Fluxion.Proofs.Arithmetic.Equality
import Fluxion.Proofs.Worklist
import Fluxion.Proofs.Forest.Equivalence
import Fluxion.Proofs.Forest.Walks
import Fluxion.Proofs.Forest.Spares
import Fluxion.Proofs.Derivative.Demand
import Fluxion.Proofs.Derivative.Supply
