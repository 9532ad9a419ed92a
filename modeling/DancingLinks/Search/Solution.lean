import DancingLinks.Search.Options
import DancingLinks.Matrix.Basic

/-!
# Solutions and messages

A solution lists the body nodes of every chosen row in search order; each row starts at the column
that was branched on. Names are looked up in the mesh, where the labels and the headers of a node
never change, so a solution reads the same whatever is covered later.
-/

namespace DancingLinks

/-- The body nodes of every chosen row, in search order. -/
structure Solution where
  rows : List (List Nat)
  deriving DecidableEq, Repr, Inhabited

namespace Solution

/-- The name of each chosen row. -/
def rowNames (mesh : Mesh) (s : Solution) : List String :=
  s.rows.map fun row => mesh.labelText (mesh.rowHeader.get (row.headD Matrix.primaryRoot))

/-- The columns that each chosen row uses, the one branched on first. -/
def columnNames (mesh : Mesh) (s : Solution) : List (List String) :=
  s.rows.map fun row => row.map fun node => mesh.labelText (mesh.columnHeader.get node)

/-- How a solution is shown. -/
def shown (mesh : Mesh) (s : Solution) : String :=
  let rows := Text.quotedList (s.rowNames mesh)
  let columns := Text.bracketed ((s.columnNames mesh).map Text.quotedList)
  s!"Solution(row_names={rows}, covered_column_names={columns})"

end Solution

/-- The body nodes of the row of an entry, from that entry on. -/
def Matrix.entryRow (m : Matrix) (entry : Nat) : Except Fault (List Nat) := do
  let others ← m.nodesAfter .right entry
  return (entry :: others).filter fun node => !m.mesh.isHeader node

/-- The solution that some chosen entries make. -/
def Matrix.capture (m : Matrix) (progress : List Nat) : Except Fault Solution := do
  return ⟨← progress.mapM m.entryRow⟩

/-- Nodes as shown in messages. -/
def Mesh.shownList (mesh : Mesh) (nodes : List Nat) : String :=
  Text.bracketed (nodes.map mesh.shown)

/-- The text of an event. -/
def Event.text (mesh : Mesh) : Event → String
  | searching level => s!"{level}: searching level {level}"
  | found level progress => s!"{level}: *** found solution: {mesh.shownList progress}"
  | available level primary secondary =>
    s!"{level}: available columns: {mesh.shownList primary} | {mesh.shownList secondary}"
  | chose level column => s!"{level}: chose and covered column {mesh.shown column}"
  | adding level entry => s!"{level}: adding {mesh.shown entry} to progress"
  | removing level entry => s!"{level}: removing {mesh.shown entry} from progress"
  | uncovering level column => s!"{level}: uncovering column {mesh.shown column}"

end DancingLinks
