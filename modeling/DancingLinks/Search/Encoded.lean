import DancingLinks.Matrix.Encoding
import DancingLinks.Search

/-!
# Searching an encoded puzzle

Puzzles are solved through their text form: the constraint lines become a matrix, and a solution of
the puzzle is read off the names of the rows that an exact cover chooses.
-/

namespace DancingLinks

/-- The solutions of a search with the messages that were sent. -/
structure Report (α : Type) where
  solutions : List α
  messages : List String
  deriving DecidableEq, Repr, Inhabited

/-- The row names of every exact cover of the matrix that constraint lines describe. -/
def solveLines (lines : List String) (o : Options) : Except Fault (Report (List String)) := do
  let outcome := (← Matrix.ofConstraintLines lines).solve o
  let mesh := outcome.matrix.mesh
  let covers ← outcome.result
  return ⟨covers.map (Solution.rowNames mesh), outcome.events.map (Event.text mesh)⟩

/-- The solutions of a puzzle with constraint lines `lines`, when `decode` reads a solution off the
row names of a cover. -/
def solveEncoded {α : Type} (lines : List String) (decode : List String → Except Fault α)
    (o : Options) : Except Fault (Report α) := do
  let report ← solveLines lines o
  return ⟨← report.solutions.mapM decode, report.messages⟩

end DancingLinks
