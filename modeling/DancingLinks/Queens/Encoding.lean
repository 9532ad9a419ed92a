import DancingLinks.Fault
import DancingLinks.Square
import DancingLinks.Text.Cut

/-!
# Queens as an exact cover

A queen stands on four lines of the board: a row, a column and two diagonals. Every row and every
column of the board must hold exactly one queen, every diagonal at most one. So the lines are the
columns of an exact cover instance, rows and columns primary and diagonals secondary, and a square
is a row that uses its four lines.

A queen that is already placed takes the squares that it attacks out of the instance; it is not
placed by force, but its own row of the board has no other square left.
-/

namespace DancingLinks.Queens

/-! ## Attacks -/

/-- The directions a queen moves in, clockwise from the top: rows down, columns to the right. -/
def directions : List (Int × Int) :=
  [(-1, 0), (-1, 1), (0, 1), (1, 1), (1, 0), (1, -1), (0, -1), (-1, -1)]

/-- The squares next to a square, in the order of the directions. -/
def neighbors (s : Square) : List Square :=
  directions.map fun (rows, columns) => s.shift rows columns

/-- The squares that lie on the board on the way from `s` in a direction, up to the first one off
the board, and at most `room` of them. -/
def ray (size rows columns : Int) : (room : Nat) → Square → List Square
  | 0, _ => []
  | room + 1, s =>
    let next := s.shift rows columns
    if next.OnBoard size then next :: ray size rows columns room next else []

/-- The squares that a queen on `s` attacks. No ray is longer than the board. -/
def attacked (size : Int) (s : Square) : List Square :=
  directions.flatMap fun (rows, columns) => ray size rows columns size.toNat s

/-! ## Lines -/

/-- A line of the board. Rising diagonals are counted from the top left corner, falling ones from
the top right corner. -/
inductive Line
  | row (number : Int)
  | column (number : Int)
  | rising (number : Int)
  | falling (number : Int)
  deriving DecidableEq, Repr

/-- The number of a line. -/
def Line.number : Line → Int
  | row number | column number | rising number | falling number => number

/-- The name of a line. -/
def Line.name : Line → String
  | row number => s!"R{number}"
  | column number => s!"C{number}"
  | rising number => s!"A{number}"
  | falling number => s!"B{number}"

/-- The lines through a square. -/
def linesThrough (size : Int) (s : Square) : List Line :=
  [.row s.row, .column s.column, .rising (s.row + s.column - 1),
    .falling ((s.row - 1) + (size - s.column) + 1)]

/-- The lines that must hold a queen. -/
def primaryLines (size : Int) : List Line :=
  (oneTo size).map .row ++ (oneTo size).map .column

/-- The lines that may hold a queen. -/
def secondaryLines (size : Int) : List Line :=
  (oneTo (2 * size - 1)).map .rising ++ (oneTo (2 * size - 1)).map .falling

/-! ## Names of squares -/

/-- The name of a square. -/
def squareName (s : Square) : String := s!"{s.row}.{s.column}"

/-- A numeral of digits of any kind. -/
def isNumeral (text : String) : Bool := !text.isEmpty && text.toList.all Text.isDigitSign

/-- The integer that a numeral stands for. -/
def readNumeral (text : String) : Except Fault Int :=
  (Text.Integer.read text).mapError .integer

/-- The square with some name: two numerals with a dot between them. -/
def readSquareName (name : String) : Except Fault Square :=
  match Text.cut name '.' with
  | (row, some column) =>
    if isNumeral row && isNumeral column then do
      return ⟨← readNumeral row, ← readNumeral column⟩
    else .error (.badRowName name)
  | (_, none) => .error (.badRowName name)

/-! ## The instance -/

/-- A board with some queens, about to be encoded. -/
structure Encoding where
  size : Int
  queens : List Square
  positive : 1 ≤ size

namespace Encoding

/-- The encoding of a board, which must have a square. -/
def of (size : Int) (queens : List Square) : Except Fault Encoding :=
  if h : 1 ≤ size then .ok ⟨size, queens, h⟩ else .error (.boardSize size)

/-- The squares that no queen attacks, in order. -/
def openSquares (e : Encoding) : List Square :=
  let taken := e.queens.flatMap (attacked e.size)
  (allSquares e.size).filter (· ∉ taken)

/-- The line that declares the columns of the instance. -/
def header (e : Encoding) : String :=
  let names (lines : List Line) : String := " ".intercalate (lines.map Line.name)
  names (primaryLines e.size) ++ " | " ++ names (secondaryLines e.size)

/-- The row of a square. -/
def rowLine (e : Encoding) (s : Square) : String :=
  squareName s ++ ": " ++ " ".intercalate ((linesThrough e.size s).map Line.name)

/-- The row of any square. Off the board the number of a line may be too long to be written. -/
def rowLineAnywhere (e : Encoding) (s : Square) : Except Fault String := do
  unless s.OnBoard e.size do
    (linesThrough e.size s).forM fun line =>
      (Text.Integer.checkWritable line.number).mapError .integer
  return e.rowLine s

/-- On the board every square has a row. -/
theorem rowLineAnywhere_of_onBoard {e : Encoding} {s : Square} (onBoard : s.OnBoard e.size) :
    e.rowLineAnywhere s = .ok (e.rowLine s) := by
  simp [rowLineAnywhere, onBoard, pure, Except.pure]

/-- The constraint lines of the board. -/
def lines (e : Encoding) : List String := e.header :: e.openSquares.map e.rowLine

end Encoding

end DancingLinks.Queens
