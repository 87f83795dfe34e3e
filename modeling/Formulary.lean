import Formulary.Registry
import Formulary.Value.Source
import Formulary.Proofs.Nesting
import Formulary.Proofs.Span
import Formulary.Proofs.Except
import Formulary.Proofs.Grammar
import Formulary.Proofs.Lexeme
import Formulary.Proofs.Yield
import Formulary.Proofs.Climbing
import Formulary.Proofs.Chain
import Formulary.Proofs.Lexing
import Formulary.Proofs.Finding
import Formulary.Proofs.Source
import Formulary.Proofs.Rendering
import Formulary.Proofs.Boundary
import Formulary.Proofs.WellFormed
import Formulary.Proofs.Insertion
import Formulary.Proofs.Outcome
import Formulary.Proofs.Stepwise
import Formulary.Proofs.Conduct
import Formulary.Proofs.Calls
import Formulary.Proofs.Within
import Formulary.Proofs.Contract
import Formulary.Proofs.Guarantees
import Formulary.Proofs.Bond
import Formulary.Proofs.Steady
import Formulary.Proofs.Memory
import Formulary.Proofs.Substitution
import Formulary.Proofs.FailFast
import Formulary.Proofs.Unmentioned
import Formulary.Proofs.Merging
import Formulary.Proofs.Ordering
import Formulary.Proofs.Sorted
import Formulary.Proofs.Distance
import Formulary.Proofs.Ring
import Formulary.Proofs.History
import Formulary.Proofs.Reordering
import Formulary.Proofs.Loading
import Formulary.Proofs.Tables
import Formulary.Proofs.WholePart
import Formulary.Proofs.Double
import Formulary.Proofs.Exchange
import Formulary.Proofs.Tiling
import Formulary.Proofs.Placement
import Formulary.Proofs.Spacing
import Formulary.Proofs.Clauses
import Formulary.Proofs.Layers
import Formulary.Proofs.Cutting
import Formulary.Proofs.Splicing
import Formulary.Proofs.Comparator
import Formulary.Proofs.Extremes
import Formulary.Proofs.Choosing
import Formulary.Proofs.Quotient
import Formulary.Proofs.Power
import Formulary.Proofs.Level
import Formulary.Proofs.Color
import Formulary.Proofs.Gradient
import Formulary.Proofs.Rolling
import Formulary.Proofs.Filtering
import Formulary.Proofs.Paths
import Formulary.Proofs.Unmatched
import Formulary.Proofs.Clockwise
import Formulary.Proofs.Abreast
import Formulary.Proofs.Alike
import Formulary.Proofs.Lockstep
import Formulary.Proofs.InStep
import Formulary.Proofs.Lasting
import Formulary.Proofs.Settling
import Formulary.Proofs.Asking
import Formulary.Proofs.Introspection
import Formulary.Proofs.Slices
import Formulary.Proofs.Positions
import Formulary.Proofs.Checked
