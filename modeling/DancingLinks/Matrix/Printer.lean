import DancingLinks.Matrix.Basic

/-!
# The matrix as a table

The part of a matrix that is not covered is printed as a table of zeros and ones: a line with the
labels of the columns, and a line for each row.
-/

namespace DancingLinks.Matrix

/-- The line of a row: its label, and for every column whether the row uses it. -/
def rowLine (m : Matrix) (columns : List Nat) (row : Nat) : Except Fault String := do
  let used := (← m.nodesAfter .right row).map m.mesh.columnHeader.get
  let cells := columns.map fun column => if column ∈ used then "1" else "0"
  return " ".intercalate (m.mesh.labelText row :: cells)

/-- The table of the rows and columns that are not covered. -/
def table (m : Matrix) : Except Fault String := do
  let columns ← m.uncoveredColumns
  let header := " ".intercalate (m.mesh.labelText primaryRoot :: columns.map m.mesh.labelText)
  let rows ← (← m.uncoveredRows).mapM (m.rowLine columns)
  return "\n".intercalate (header :: rows) ++ "\n"

end DancingLinks.Matrix
