import DancingLinks.Rings

/-!
# The mesh of nodes

A `Mesh` is an arena of nodes, numbered in the order they were made, each of them in a horizontal
and in a vertical ring. Every node knows the header of its row and of its column; a node that has
not been inserted anywhere is its own header. The header of a column counts the nodes inserted below
it and not taken out since.

Inserting a node beside another makes it a member of that node's row, inserting it below another a
member of that node's column. Taking a node out of its column leaves its links as they are, so
`relinkVertical` can put it back.
-/

namespace DancingLinks

/-- The four ways to go from a node. -/
inductive Direction
  | up
  | down
  | left
  | right
  deriving DecidableEq, Repr

/-- An arena of nodes linked in two directions. -/
structure Mesh where
  /-- The labels of the nodes; body nodes have none. -/
  labels : Array (Option String)
  horizontal : Rings
  vertical : Rings
  rowHeader : Table (id : Nat → Nat)
  columnHeader : Table (id : Nat → Nat)
  counts : Table (fun _ => (0 : Int))

namespace Mesh

/-- The mesh without nodes. -/
def empty : Mesh := ⟨#[], .alone, .alone, .empty, .empty, .empty⟩

instance : Inhabited Mesh := ⟨empty⟩

/-- The number of nodes. -/
def size (m : Mesh) : Nat := m.labels.size

/-- The label of a node, if it has one. -/
def label? (m : Mesh) (x : Nat) : Option String := (m.labels[x]?).join

/-- The number of nodes that the header `x` counts in its column. -/
def count (m : Mesh) (x : Nat) : Int := m.counts.get x

/-- The neighbour of a node. -/
def neighbor (m : Mesh) (d : Direction) (x : Nat) : Nat :=
  match d with
  | .up => m.vertical.prev.get x
  | .down => m.vertical.next.get x
  | .left => m.horizontal.prev.get x
  | .right => m.horizontal.next.get x

/-- The other nodes of a ring, met from `x` on in one direction. A ring that does not lead back to
`x` has no such list. -/
def nodesAfter (m : Mesh) (d : Direction) (x : Nat) : Option (List Nat) :=
  Rings.walk (m.neighbor d) x m.size (m.neighbor d x)

/-- A node is a header when it is its own row header or its own column header. -/
def isHeader (m : Mesh) (x : Nat) : Bool := m.rowHeader.get x == x || m.columnHeader.get x == x

/-- The text of a label. -/
def labelText (m : Mesh) (x : Nat) : String := (m.label? x).getD "None"

/-- How a node is shown: by its label, or by the labels of its row and its column. -/
def shown (m : Mesh) (x : Nat) : String :=
  match m.label? x with
  | some label => label
  | none => s!"{m.labelText (m.rowHeader.get x)}:{m.labelText (m.columnHeader.get x)}"

/-- A new node, alone in its rings, with the next number. -/
def addNode (m : Mesh) (label : Option String) : Mesh :=
  { m with labels := m.labels.push label }

/-- Puts the node `y` to the right of `x`, into its row. -/
def insertRight (m : Mesh) (x y : Nat) : Mesh :=
  let header := m.rowHeader.get x
  { m with
    horizontal := m.horizontal.insertAfter x y
    rowHeader := m.rowHeader.set y header }

/-- Puts the node `y` to the left of `x`, into the row of the left neighbour. -/
def insertLeft (m : Mesh) (x y : Nat) : Mesh := m.insertRight (m.neighbor .left x) y

/-- Puts the node `y` below `x`, into its column, and counts it there. -/
def insertDown (m : Mesh) (x y : Nat) : Mesh :=
  let m := { m with
    vertical := m.vertical.insertAfter x y
    columnHeader := m.columnHeader.set y (m.columnHeader.get x) }
  let header := m.columnHeader.get x
  { m with counts := m.counts.set header (m.counts.get header + 1) }

/-- Puts the node `y` above `x`, into the column of the upper neighbour. -/
def insertUp (m : Mesh) (x y : Nat) : Mesh := m.insertDown (m.neighbor .up x) y

/-- Takes `x` out of its row. -/
def unlinkHorizontal (m : Mesh) (x : Nat) : Mesh :=
  { m with horizontal := m.horizontal.unlink x }

/-- Puts `x` back into its row. -/
def relinkHorizontal (m : Mesh) (x : Nat) : Mesh :=
  { m with horizontal := m.horizontal.relink x }

/-- Takes `x` out of its column. -/
def unlinkVertical (m : Mesh) (x : Nat) : Mesh :=
  let header := m.columnHeader.get x
  { m with
    vertical := m.vertical.unlink x
    counts := m.counts.set header (m.counts.get header - 1) }

/-- Puts `x` back into its column. -/
def relinkVertical (m : Mesh) (x : Nat) : Mesh :=
  let header := m.columnHeader.get x
  { m with
    vertical := m.vertical.relink x
    counts := m.counts.set header (m.counts.get header + 1) }

/-! ## What the operations leave alone -/

@[simp] theorem labels_insertRight (m : Mesh) (x y : Nat) :
    (m.insertRight x y).labels = m.labels := rfl

@[simp] theorem labels_insertDown (m : Mesh) (x y : Nat) :
    (m.insertDown x y).labels = m.labels := rfl

@[simp] theorem labels_unlinkHorizontal (m : Mesh) (x : Nat) :
    (m.unlinkHorizontal x).labels = m.labels := rfl

@[simp] theorem labels_relinkHorizontal (m : Mesh) (x : Nat) :
    (m.relinkHorizontal x).labels = m.labels := rfl

@[simp] theorem labels_unlinkVertical (m : Mesh) (x : Nat) :
    (m.unlinkVertical x).labels = m.labels := rfl

@[simp] theorem labels_relinkVertical (m : Mesh) (x : Nat) :
    (m.relinkVertical x).labels = m.labels := rfl

@[simp] theorem size_addNode (m : Mesh) (label : Option String) :
    (m.addNode label).size = m.size + 1 := by
  simp [size, addNode]

end Mesh

end DancingLinks
