import ProbePoints.CommandLine.FileSystem
import ProbePoints.Main
import ProbePoints.Proofs.Calls
import ProbePoints.Proofs.Comparison
import ProbePoints.Proofs.Convergence
import ProbePoints.Proofs.Crossings
import ProbePoints.Proofs.History
import ProbePoints.Proofs.Image
import ProbePoints.Proofs.JsonText
import ProbePoints.Proofs.Names
import ProbePoints.Proofs.Outcomes
import ProbePoints.Proofs.Refusals
import ProbePoints.Proofs.Renaming
import ProbePoints.Proofs.Repetition
import ProbePoints.Proofs.Reports
import ProbePoints.Proofs.Sites
import ProbePoints.Proofs.Stuck
import ProbePoints.Proofs.TableKeys
import ProbePoints.Proofs.Violations
import ProbePoints.Proofs.Visits
import ProbePoints.Proofs.Walk
