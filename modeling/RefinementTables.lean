import RefinementTables.Main
import RefinementTables.Proofs.Comparison.Pivot
import RefinementTables.Proofs.Run.Fields
import RefinementTables.Proofs.Run.Merge
import RefinementTables.Proofs.Run.Supply
import RefinementTables.Proofs.Comparison.Failures
import RefinementTables.Proofs.Staging.Sessions
import RefinementTables.Proofs.Run.Rerun
import RefinementTables.Proofs.Run.Figure
import RefinementTables.Proofs.Convergence.Tolerance
import RefinementTables.Proofs.Convergence.Lenient
import RefinementTables.Proofs.Binary64.RoundTrip
import RefinementTables.Proofs.Comparison.Collisions
import RefinementTables.Proofs.Convergence.Samples
import RefinementTables.Proofs.Source.Lines
import RefinementTables.Proofs.Layout.WholeLines
import RefinementTables.Proofs.Plot.Braces
import RefinementTables.Proofs.Fault
import RefinementTables.Proofs.Row.History
