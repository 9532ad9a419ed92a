import DancingLinks.Matrix.Basic

/-!
# Covering columns

Covering a column takes its header out of the ring of columns, and every row that uses the column
out of all its other columns. Uncovering puts everything back in the reverse order. A column counts
as covered when its left neighbour does not lead back to it.

Which nodes a cover takes out is found first, on the unchanged mesh (`coverPlan`), and then done
(`hide`): the walks go down the column and along its rows, none of which a cover of another node of
that column changes. Uncovering has the same two steps, `uncoverPlan` and `reveal`.
-/

namespace DancingLinks.Matrix

/-- The number is that of a column header. -/
def isColumn (m : Matrix) (x : Nat) : Bool :=
  firstColumn ≤ x && x < firstColumn + m.primary.length + m.secondary.length

/-- Why a node that is none of the matrix's column headers can be neither covered nor uncovered: it
is not named like a column, or another node is the header of that column. -/
def refusal (m : Matrix) (label : Option String) (shown : String) : Fault :=
  match label with
  | some name =>
    if name ∈ m.primary ∨ name ∈ m.secondary then .notOwnHeader shown else .notColumnHeader shown
  | none => .notColumnHeader shown

/-- Refuses every node but the column headers. -/
def checkColumn (m : Matrix) (x : Nat) : Except Fault Unit :=
  if m.isColumn x then .ok () else .error (m.refusal (m.mesh.label? x) (m.mesh.shown x))

/-- The left neighbour of the header does not lead back to it. -/
def isHidden (m : Matrix) (c : Nat) : Bool :=
  m.mesh.neighbor .right (m.mesh.neighbor .left c) != c

/-- Whether the column with header `c` is covered. -/
def isCovered (m : Matrix) (c : Nat) : Except Fault Bool := do
  m.checkColumn c
  return m.isHidden c

/-- The nodes met from the entries of a column along their rows; the entries are visited in one
direction, the row of each in another. -/
def rowMates (m : Matrix) (along across : Direction) (c : Nat) : Except Fault (List Nat) := do
  let entries ← m.nodesAfter along c
  return (← entries.mapM (m.nodesAfter across)).flatten

/-- The nodes that covering `c` takes out of their columns, in order. The column must not be covered
already. -/
def coverPlan (m : Matrix) (c : Nat) : Except Fault (List Nat) := do
  if ← m.isCovered c then throw (.alreadyCovered (m.mesh.shown c))
  m.rowMates .down .right c

/-- The nodes that uncovering `c` puts back into their columns, in order. The column must be
covered. -/
def uncoverPlan (m : Matrix) (c : Nat) : Except Fault (List Nat) := do
  if !(← m.isCovered c) then throw (.notCovered (m.mesh.shown c))
  m.rowMates .up .left c

/-- Takes the header `c` out of its ring, and then the nodes out of their columns. -/
def hide (m : Matrix) (c : Nat) (nodes : List Nat) : Matrix :=
  { m with mesh := nodes.foldl Mesh.unlinkVertical (m.mesh.unlinkHorizontal c) }

/-- Puts the nodes back into their columns, and then the header `c` into its ring. -/
def reveal (m : Matrix) (c : Nat) (nodes : List Nat) : Matrix :=
  { m with mesh := (nodes.foldl Mesh.relinkVertical m.mesh).relinkHorizontal c }

/-- Covers a column. -/
def cover (m : Matrix) (c : Nat) : Except Fault Matrix := do
  return m.hide c (← m.coverPlan c)

/-- Uncovers a column. -/
def uncover (m : Matrix) (c : Nat) : Except Fault Matrix := do
  return m.reveal c (← m.uncoverPlan c)

end DancingLinks.Matrix
