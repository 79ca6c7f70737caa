import Offside.Main
import Offside.Memory.Snapshot
import Offside.Proofs.Execution.Independence
import Offside.Proofs.Execution.Inheritance
import Offside.Proofs.Execution.Ledger
import Offside.Proofs.Execution.Output
import Offside.Proofs.Execution.References
import Offside.Proofs.Execution.Rejected
import Offside.Proofs.Execution.Signal
import Offside.Proofs.Grammar.Entering
import Offside.Proofs.Grammar.Rejection
import Offside.Proofs.Grammar.Rendering
import Offside.Proofs.Grammar.Shape
import Offside.Proofs.Token.Settling
import Offside.Proofs.Execution.Discipline
import Offside.Proofs.Execution.Scope
import Offside.Proofs.Execution.Naming
import Offside.Proofs.Grammar.Termination
import Offside.Proofs.Execution.Construction
import Offside.Proofs.Execution.Arithmetic
import Offside.Proofs.Execution.Numerals
import Offside.Proofs.Execution.Fields
import Offside.Proofs.Execution.Printing
import Offside.Proofs.Execution.Comparison
import Offside.Proofs.Execution.Paths
import Offside.Proofs.Token.Edits
import Offside.Proofs.Token.Skipping
import Offside.Proofs.Execution.Sequence
import Offside.Proofs.Text.Splitting
import Offside.Proofs.Token.Munching
import Offside.Proofs.Execution.Identity
