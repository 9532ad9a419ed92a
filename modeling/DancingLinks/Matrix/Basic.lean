import DancingLinks.Fault
import DancingLinks.Mesh
import DancingLinks.Repeated

/-!
# Exact cover matrices

A `Matrix` is a mesh with two root nodes, one header per column and one per row. Primary columns are
to be covered exactly once, secondary ones at most once; each kind hangs in a ring at its root. The
primary root also starts the ring of the row headers, and counts them.

Nodes are numbered in the order they are made: the two roots, the column headers in the order of
declaration, and for every row its header and then its body nodes. So a column's header is found by
the position of its name, and a number tells by itself whether it is a column header.
-/

namespace DancingLinks

/-- An exact cover instance over declared columns, some of them covered. -/
structure Matrix where
  mesh : Mesh
  /-- The primary columns, in the order of declaration. -/
  primary : List String
  /-- The secondary columns, in the order of declaration. -/
  secondary : List String
  /-- No column is declared twice. -/
  distinct : (primary ++ secondary).Nodup

namespace Matrix

/-- The root of the primary columns and of the rows. -/
def primaryRoot : Nat := 0

/-- The root of the secondary columns. -/
def secondaryRoot : Nat := 1

/-- The header of the first column. -/
def firstColumn : Nat := 2

/-- The label of the primary root. -/
def primaryRootLabel : String := "--"

/-- The label of the secondary root. -/
def secondaryRootLabel : String := "|"

/-! ## Columns -/

/-- A new column header at the end of the ring at `root`. -/
def addHeader (root : Nat) (mesh : Mesh) (name : String) : Mesh :=
  (mesh.addNode (some name)).insertLeft root mesh.size

/-- The mesh of a matrix without rows. -/
def headerMesh (primary secondary : List String) : Mesh :=
  let roots := (Mesh.empty.addNode (some primaryRootLabel)).addNode (some secondaryRootLabel)
  secondary.foldl (addHeader secondaryRoot) (primary.foldl (addHeader primaryRoot) roots)

/-- The matrix without rows over some columns, which must not share a name. -/
def ofColumns (primary secondary : List String) : Except Fault Matrix :=
  match h : firstRepeated (primary ++ secondary) with
  | some name => .error (.duplicateColumn name)
  | none =>
    .ok ⟨headerMesh primary secondary, primary, secondary, firstRepeated_eq_none_iff.1 h⟩

instance : Inhabited Matrix := ⟨⟨headerMesh [] [], [], [], by simp⟩⟩

/-- The number of a name, when those in the list are numbered from `first` on. -/
def numberOf (name : String) (first : Nat) : List String → Option Nat
  | [] => none
  | other :: names => if other = name then some first else numberOf name (first + 1) names

/-- The header of the column with some name. -/
def column? (m : Matrix) (name : String) : Option Nat :=
  match numberOf name firstColumn m.primary with
  | some header => some header
  | none => numberOf name (firstColumn + m.primary.length) m.secondary

/-- The header of the column with some name, which must have been declared. -/
def column (m : Matrix) (name : String) : Except Fault Nat :=
  match m.column? name with
  | some header => .ok header
  | none => .error (.unknownColumn name)

/-- The number of a name gives its place in the list. -/
theorem numberOf_eq_some {name : String} {first i : Nat} {names : List String}
    (h : numberOf name first names = some i) : first ≤ i ∧ names[i - first]? = some name := by
  induction names generalizing first with
  | nil => simp [numberOf] at h
  | cons other names ih =>
    unfold numberOf at h
    split at h
    · next same => simp [← Option.some.inj h, same]
    · obtain ⟨le, found⟩ := ih h
      refine ⟨by omega, ?_⟩
      rw [show i - first = i - (first + 1) + 1 by omega, List.getElem?_cons_succ, found]

/-- A name has a number when it is in the list. -/
theorem numberOf_eq_none_iff {name : String} {first : Nat} {names : List String} :
    numberOf name first names = none ↔ name ∉ names := by
  induction names generalizing first with
  | nil => simp [numberOf]
  | cons other names ih =>
    unfold numberOf
    split
    · next same => simp [same]
    · next differ => simp [ih, Ne.symm differ]

/-! ## Rows -/

/-- The headers of the columns that a row lists, which must be declared and not listed twice;
`seen` are those listed already. -/
def resolve (m : Matrix) (row : String) (seen : List Nat) : List String → Except Fault (List Nat)
  | [] => .ok []
  | name :: names => do
    let header ← m.column name
    if header ∈ seen then throw (.repeatedColumn row name)
    let headers ← m.resolve row (header :: seen) names
    return header :: headers

/-- A new body node at the end of the row with header `row` and of the column with header `column`.
-/
def addEntry (row : Nat) (mesh : Mesh) (column : Nat) : Mesh :=
  let node := mesh.size
  ((mesh.addNode none).insertLeft row node).insertUp column node

/-- The mesh with a row at the end of the ring of rows. -/
def addRowMesh (mesh : Mesh) (name : String) (columns : List Nat) : Mesh :=
  let row := mesh.size
  columns.foldl (addEntry row) ((mesh.addNode (some name)).insertUp primaryRoot row)

/-- The matrix with a row that uses the named columns. Names that are not declared, or listed twice,
leave nothing behind: all are looked up before the first node is made. -/
def addRow (m : Matrix) (name : String) (columns : List String) : Except Fault Matrix := do
  let headers ← m.resolve name [] columns
  return { m with mesh := addRowMesh m.mesh name headers }

/-! ## Views -/

/-- The other nodes of a ring, met from `x` on in one direction. -/
def nodesAfter (m : Matrix) (d : Direction) (x : Nat) : Except Fault (List Nat) :=
  match m.mesh.nodesAfter d x with
  | some nodes => .ok nodes
  | none => .error .openRing

/-- The headers of the primary columns that are not covered. -/
def primaryColumns (m : Matrix) : Except Fault (List Nat) := m.nodesAfter .right primaryRoot

/-- The headers of the secondary columns that are not covered. -/
def secondaryColumns (m : Matrix) : Except Fault (List Nat) := m.nodesAfter .right secondaryRoot

/-- The headers of the columns that are not covered. -/
def uncoveredColumns (m : Matrix) : Except Fault (List Nat) := do
  return (← m.primaryColumns) ++ (← m.secondaryColumns)

/-- The headers of the rows that use no covered column. -/
def uncoveredRows (m : Matrix) : Except Fault (List Nat) := m.nodesAfter .down primaryRoot

/-- The body nodes in the columns that are not covered, column by column. -/
def uncoveredNodes (m : Matrix) : Except Fault (List Nat) := do
  let columns ← m.uncoveredColumns
  return (← columns.mapM (m.nodesAfter .down)).flatten

/-- No primary column is left to be covered. -/
def isEmpty (m : Matrix) : Bool := m.mesh.neighbor .right primaryRoot == primaryRoot

end Matrix

end DancingLinks
