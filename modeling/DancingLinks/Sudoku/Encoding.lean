import DancingLinks.SquareRoot
import DancingLinks.Sudoku.Alphabet
import DancingLinks.Sudoku.Cell

/-!
# Sudoku as an exact cover

A cell meets several demands: its square is filled, and its symbol occurs in its row, in its column
and, when the size is a perfect square, in its box. Every demand must be met exactly once, so the
demands are the columns of an exact cover instance, all of them primary, and a candidate cell is a
row that uses its demands. A given square has only its own candidate.
-/

namespace DancingLinks.Sudoku

/-! ## Boxes -/

/-- The box of a square, counted from one, row by row, when boxes have `side` squares on a side. -/
def boxNumber (side : Int) (s : Square) : Int :=
  (s.row - 1) / side * side + (s.column - 1) / side + 1

/-- The box of a square on a board of some size. Without squares there are no boxes. -/
def box (size : Int) (s : Square) : Except Fault Int :=
  let side := isqrt size.toNat
  if side = 0 then .error .divisionByZero else .ok (boxNumber side s)

/-! ## Demands -/

/-- Something that a board must do exactly once. -/
inductive Demand
  /-- Fill a square. -/
  | filled (s : Square)
  /-- Have a symbol in a row. -/
  | inRow (number : Int) (value : String)
  /-- Have a symbol in a column. -/
  | inColumn (number : Int) (value : String)
  /-- Have a symbol in a box. -/
  | inBox (number : Int) (value : String)
  deriving DecidableEq, Repr

/-- The name of a demand. -/
def Demand.name : Demand → String
  | filled s => s!"X{s.row}.{s.column}"
  | inRow number value => s!"R{number}#{value}"
  | inColumn number value => s!"C{number}#{value}"
  | inBox number value => s!"S{number}#{value}"

/-- The demand that a cell meets in its box. Off the board the number of a box may be too long to
be written. -/
def boxDemand (size : Int) (c : Cell) : Except Fault Demand := do
  let number ← box size c.square
  unless c.square.OnBoard size do
    (Text.Integer.checkWritable number).mapError .integer
  return .inBox number c.value

/-- On the board a box is all that it takes. -/
theorem boxDemand_of_onBoard {size : Int} {c : Cell} (onBoard : c.square.OnBoard size) :
    boxDemand size c = (box size c.square).map (Demand.inBox · c.value) := by
  cases h : box size c.square <;>
    simp [boxDemand, onBoard, h, Except.map, pure, Except.pure, bind, Except.bind]

/-! ## The instance -/

/-- A board with given cells, about to be encoded. -/
structure Encoding where
  size : Int
  given : List Cell
  alphabet : List String
  /-- The size is a perfect square, so the board has boxes. -/
  boxes : Bool

namespace Encoding

/-- The encoding of a board. The alphabet must fit it, the given cells must lie on different
squares, and the size must have a square root. -/
def of (size : Int) (given : List Cell) (alphabet : List String) : Except Fault Encoding := do
  checkAlphabet alphabet size
  checkDistinct given
  return ⟨size, given, alphabet, ← isPerfectSquare size⟩

/-- The symbols that squares are filled with. -/
def symbols (e : Encoding) : List String := e.alphabet.take e.size.toNat

/-- The demands that a cell meets. -/
def demands (e : Encoding) (c : Cell) : Except Fault (List Demand) := do
  let lines := [.filled c.square, .inRow c.square.row c.value, .inColumn c.square.column c.value]
  if e.boxes then return lines ++ [← boxDemand e.size c] else return lines

/-- All demands of the board. -/
def allDemands (e : Encoding) : List Demand :=
  let each (demand : Int → String → Demand) : List Demand :=
    (oneTo e.size).flatMap fun number => e.symbols.eraseDups.map (demand number)
  (allSquares e.size).map .filled ++ each .inRow ++ each .inColumn
    ++ (if e.boxes then each .inBox else [])

/-- The candidates, in order: the given cells, and every symbol on every other square. -/
def candidates (e : Encoding) : List Cell :=
  let taken := e.given.map Cell.square
  let free := (allSquares e.size).filter (· ∉ taken)
  sorted (e.given ++ free.flatMap fun square => e.symbols.map fun symbol => ⟨square, symbol⟩)

/-- The line that declares the columns of the instance. -/
def header (e : Encoding) : String := " ".intercalate (e.allDemands.map Demand.name)

/-- The row of a candidate. -/
def rowLine (e : Encoding) (c : Cell) : Except Fault String := do
  return cellName c ++ ": " ++ " ".intercalate ((← e.demands c).map Demand.name)

/-- The constraint lines of the board. -/
def lines (e : Encoding) : Except Fault (List String) := do
  return e.header :: (← e.candidates.mapM e.rowLine)

end Encoding

end DancingLinks.Sudoku
