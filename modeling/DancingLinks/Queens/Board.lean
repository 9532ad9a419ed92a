import DancingLinks.Queens.Encoding
import DancingLinks.Search.Encoded
import DancingLinks.Text.Blank

/-!
# Boards of queens

A board has a size and queens on some squares, each square once; two boards are equal when they have
the same size and the same queens. Boards are read from lines and written as lines, one character
per square.
-/

namespace DancingLinks.Queens

/-- A board with queens. -/
structure Board where
  size : Int
  queens : List Square
  /-- The queens are in order, and on different squares. -/
  ordered : queens.Pairwise (· < ·)
  deriving DecidableEq

namespace Board

/-- The character of a square without a queen. -/
def emptySymbol : Char := '.'

/-- The board with queens on some squares. -/
def of (size : Int) (queens : List Square) : Board :=
  ⟨size, distinctSorted queens,
    pairwise_distinctSorted Square.lt_trans Square.eq_of_not_lt queens⟩

/-- The squares with a queen on a line of text, from some square on. -/
def queensOnLine (row column : Int) : List Char → List Square
  | [] => []
  | c :: cs =>
    let rest := queensOnLine row (column + 1) cs
    if c = emptySymbol then rest else ⟨row, column⟩ :: rest

/-- The squares with a queen on lines of text, all of which must have the given length; the first
line has number `row`. -/
def queensOnLines (size row : Nat) : List String → Except Fault (List Square)
  | [] => .ok []
  | line :: lines =>
    if line.length ≠ size then .error (.raggedRow row size line.length)
    else do
      let rest ← queensOnLines size (row + 1) lines
      return queensOnLine row 1 line.toList ++ rest

/-- The board that some lines show; blank lines and blanks around a line do not count. Every
character but the dot is a queen. -/
def parse (lines : List String) : Except Fault Board := do
  let rows := (lines.filter (!Text.isBlankText ·)).map Text.trim
  return of rows.length (← queensOnLines rows.length 1 rows)

/-- The lines that show the board. -/
def toLines (b : Board) : List String :=
  gridLines b.size fun s => if s ∈ b.queens then "X" else "."

/-- The board under a title. -/
def pretty (b : Board) : String :=
  "\n".intercalate (s!"NQueens: size {b.size}x{b.size}" :: b.toLines)

/-- How a board is searched when nothing else is asked for: row by row. -/
def defaultOptions : Options := { selector := .first }

/-- The board whose queens stand on the named squares. -/
def ofNames (size : Int) (names : List String) : Except Fault Board := do
  return of size (← names.mapM readSquareName)

/-- The boards with a queen in every row and column that hold the given queens, and the messages of
the search. -/
def search (b : Board) (o : Options) : Except Fault (Report Board) := do
  let encoding ← Encoding.of b.size b.queens
  solveEncoded encoding.lines (ofNames b.size) o

/-- The boards with a queen in every row and column that hold the given queens. -/
def solve (b : Board) (o : Options := defaultOptions) : Except Fault (List Board) :=
  (b.search o).map Report.solutions

end Board

end DancingLinks.Queens
