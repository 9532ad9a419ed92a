import DancingLinks.Matrix.Basic
import DancingLinks.Text.Blank
import DancingLinks.Text.Cut

/-!
# The text form of a matrix

The first line lists the names of the primary columns and, after a bar, those of the secondary ones.
Every other line is a row, with its name and a colon before it if it has one. A row either lists the
columns it uses, or gives one integer per column, of which the positive ones mark the used columns.
Blank lines do not count. A row without a name is called `R` and its number.
-/

namespace DancingLinks.Matrix

/-- What separates primary from secondary columns. -/
def columnSeparator : Char := '|'

/-- What ends the name of a row. -/
def nameSeparator : Char := ':'

/-- The primary and the secondary columns that a header line declares. -/
def columnNames (header : String) : List String × List String :=
  let (primary, secondary) := Text.cut header columnSeparator
  (Text.words primary, (secondary.map Text.words).getD [])

/-- The name of the row with some number. -/
def rowName (index : Int) (line : String) : String :=
  match Text.cut line nameSeparator with
  | (name, some _) => Text.trim name
  | (_, none) => s!"R{index}"

/-- The words of a row, its name left out. -/
def rowValues (line : String) : List String :=
  match Text.cut line nameSeparator with
  | (_, some values) => Text.words values
  | (values, none) => Text.words values

/-- The columns whose value is positive; every column has a value, and none is negative. -/
def positiveColumns : List String → List String → Except Fault (List String)
  | value :: values, name :: names =>
    match Text.Integer.read value with
    | .error _ => .error (.notInteger value)
    | .ok n =>
      if n < 0 then .error (.negativeEntry value)
      else do
        let used ← positiveColumns values names
        return if 0 < n then name :: used else used
  | _, _ => .ok []

/-- The columns that a row of integers uses. -/
def flaggedColumns (values columns : List String) : Except Fault (List String) :=
  if values.length ≠ columns.length then .error (.rowLength values columns.length)
  else positiveColumns values columns

/-- Adds one row per line, numbered from `index` on. -/
def addLines (columnsOf : String → Except Fault (List String)) (m : Matrix) (index : Nat) :
    List String → Except Fault Matrix
  | [] => .ok m
  | line :: lines => do
    let columns ← columnsOf line
    (← m.addRow (rowName index line) columns).addLines columnsOf (index + 1) lines

/-- The matrix that some lines describe, when `columnsOf` finds the columns that a row uses. -/
def ofLines (columnsOf : String → Except Fault (List String)) (lines : List String) :
    Except Fault Matrix :=
  match lines.filter (!Text.isBlankText ·) with
  | header :: row :: rows => do
    let (primary, secondary) := columnNames header
    (← ofColumns primary secondary).addLines columnsOf 1 (row :: rows)
  | _ => .error .tooFewLines

/-- The matrix of lines that list the columns they use. -/
def ofConstraintLines (lines : List String) : Except Fault Matrix :=
  ofLines (fun line => .ok (rowValues line)) lines

/-- The matrix of lines that give an integer per column. -/
def ofBooleanLines (lines : List String) : Except Fault Matrix :=
  let (primary, secondary) := columnNames ((lines.find? (!Text.isBlankText ·)).getD "")
  ofLines (fun line => flaggedColumns (rowValues line) (primary ++ secondary)) lines

end DancingLinks.Matrix
