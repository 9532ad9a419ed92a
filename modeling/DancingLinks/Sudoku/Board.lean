import DancingLinks.Search.Encoded
import DancingLinks.Sudoku.Encoding

/-!
# Sudoku boards

A board has a size, an alphabet of that many symbols, and values on some squares; two boards are
equal when all three are. Boards are read from lines and written as lines. The values of a board
need not be symbols of its alphabet, and need not lie on the board: such a board is refused when it
is solved.
-/

namespace DancingLinks.Sudoku

/-- A board with cells. -/
structure Board where
  size : Int
  cells : List Cell
  alphabet : List String
  /-- The cells are in order, and on different squares. -/
  ordered : cells.Pairwise fun a b => a.square < b.square
  deriving DecidableEq

namespace Board

/-- The board with some cells, which must lie on different squares, and the first symbols of an
alphabet. -/
def of (size : Int) (cells : List Cell) (alphabet : List String := defaultAlphabet) :
    Except Fault Board := do
  if size < 1 then throw (.sudokuSize size)
  checkAlphabet alphabet size
  match h : firstRepeated (cells.map Cell.square) with
  | some square => throw (.duplicateCell square.row square.column)
  | none =>
    return ⟨size, sorted cells, sorted (alphabet.take size.toNat),
      pairwise_square_sorted (firstRepeated_eq_none_iff.1 h)⟩

/-- The cells on a line of text, from some square on. -/
def cellsOnLine (row column : Int) : List Char → List Cell
  | [] => []
  | c :: cs =>
    let rest := cellsOnLine row (column + 1) cs
    if c = emptySymbol then rest else ⟨⟨row, column⟩, String.singleton c⟩ :: rest

/-- The cells on lines of text, all of which must have the given length; the first line has number
`row`. -/
def cellsOnLines (size row : Nat) : List String → Except Fault (List Cell)
  | [] => .ok []
  | line :: lines =>
    if line.length ≠ size then .error (.raggedRow row size line.length)
    else do
      let rest ← cellsOnLines size (row + 1) lines
      return cellsOnLine row 1 line.toList ++ rest

/-- The board that some lines show; blank lines and blanks around a line do not count. -/
def parse (lines : List String) : Except Fault Board := do
  let rows := (lines.filter (!Text.isBlankText ·)).map Text.trim
  let cells ← cellsOnLines rows.length 1 rows
  of rows.length cells (← inferAlphabet rows.length rows)

/-- The value of a square. -/
def valueAt (b : Board) (s : Square) : Option String :=
  (b.cells.find? (·.square = s)).map Cell.value

/-- The lines that show the board. -/
def toLines (b : Board) : List String :=
  gridLines b.size fun s => (b.valueAt s).getD (String.singleton emptySymbol)

/-- The board under a title. -/
def pretty (b : Board) : String :=
  "\n".intercalate (s!"Sudoku: size {b.size}x{b.size}" :: b.toLines)

/-- The board with the named cells. -/
def ofNames (size : Int) (alphabet names : List String) : Except Fault Board := do
  of size (← names.mapM readCellName) alphabet

/-- The full boards that hold the given cells, and the messages of the search. -/
def search (b : Board) (o : Options) : Except Fault (Report Board) := do
  let encoding ← Encoding.of b.size b.cells b.alphabet
  solveEncoded (← encoding.lines) (ofNames b.size b.alphabet) o

/-- The full boards that hold the given cells. -/
def solve (b : Board) (o : Options := {}) : Except Fault (List Board) :=
  (b.search o).map Report.solutions

end Board

end DancingLinks.Sudoku
