import DancingLinks.Matrix.History
import DancingLinks.Search

/-!
# Requests

What the users of a matrix do to it, in whichever order: rows are added, columns covered and uncovered,
and searches run. A request may be refused. A row or a step that is refused leaves the matrix as it was,
and a search that is broken off leaves it as the fault found it.
-/

namespace DancingLinks

/-- What may be asked of a matrix. -/
inductive Request
  | addRow (name : String) (columns : List String)
  | step (step : Matrix.Step)
  | solve (options : Options)

namespace Matrix

/-- The matrix after a request, whatever came of it. -/
def serve (m : Matrix) : Request → Matrix
  | .addRow name columns =>
    match m.addRow name columns with
    | .ok m' => m'
    | .error _ => m
  | .step s => m.attempt s
  | .solve o => (m.solve o).matrix

/-- The matrix after some requests. -/
def serveAll (m : Matrix) (requests : List Request) : Matrix := requests.foldl serve m

end Matrix

end DancingLinks
