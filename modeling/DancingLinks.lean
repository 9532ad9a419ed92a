import DancingLinks.ExactCover.AlgorithmX
import DancingLinks.Main
import DancingLinks.Matrix.History
import DancingLinks.Matrix.Printer
import DancingLinks.Proofs.Answers
import DancingLinks.Proofs.Matrix.Attempts
import DancingLinks.Proofs.Matrix.Depiction
import DancingLinks.Proofs.Matrix.Listing
import DancingLinks.Proofs.Matrix.NewRow
import DancingLinks.Proofs.Mesh.Removals
import DancingLinks.Proofs.Queens.Conflicts
import DancingLinks.Proofs.Queens.Order
import DancingLinks.Proofs.RowNames
import DancingLinks.Proofs.Search.Audit
import DancingLinks.Proofs.Search.Curtailed
import DancingLinks.Proofs.Search.Refusals
import DancingLinks.Proofs.Search.Requests
import DancingLinks.Proofs.Search.Solve
import DancingLinks.Proofs.Sudoku.Conflicts
import DancingLinks.Proofs.Viewer.Boxes
import DancingLinks.Proofs.Viewer.Frames
import DancingLinks.Queens.Rules
import DancingLinks.Search.Choices
import DancingLinks.Sudoku.Rules
import DancingLinks.Proofs.Viewer.Boxes
