import DancingLinks.ExactCover
import DancingLinks.Search.Solution

/-!
# Solutions as choices

A solution read as choices of the problem behind the matrix: every row by the number of its header,
with its name and the columns of the body nodes that stand for it.
-/

namespace DancingLinks.Solution

/-- The choice that a row of a solution stands for. -/
def choice (mesh : Mesh) (row : List Nat) : Choice String :=
  let header := mesh.rowHeader.get (row.headD Matrix.primaryRoot)
  ⟨header, mesh.labelText header, row.map fun node => mesh.labelText (mesh.columnHeader.get node)⟩

/-- The choices of a solution, in search order. -/
def choices (mesh : Mesh) (s : Solution) : List (Choice String) := s.rows.map (choice mesh)

/-- Choices keep the names of the rows. -/
theorem map_name_choices (mesh : Mesh) (s : Solution) :
    (s.choices mesh).map Choice.name = s.rowNames mesh := by
  simp [choices, rowNames, choice]

/-- Choices keep the names of the columns. -/
theorem map_columns_choices (mesh : Mesh) (s : Solution) :
    (s.choices mesh).map Choice.columns = s.columnNames mesh := by
  simp [choices, columnNames, choice]

end DancingLinks.Solution
