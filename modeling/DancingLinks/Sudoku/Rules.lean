import DancingLinks.Sudoku.Board

/-!
# The rules of sudoku

What a solution of a board is, said without demands or exact covers: a value on every square, each
symbol once in every row, in every column and, on a board whose size is a perfect square, in every
box, and the given cells among the cells.
-/

namespace DancingLinks.Sudoku.Board

/-- How many cells on certain squares have some value. -/
def occurrences (b : Board) (value : String) (area : Square → Bool) : Nat :=
  b.cells.countP fun c => area c.square && c.value == value

/-- The area of a row. -/
def rowArea (row : Int) (s : Square) : Bool := s.row == row

/-- The area of a column. -/
def columnArea (column : Int) (s : Square) : Bool := s.column == column

/-- The area of a box with sides of length `side`; boxes are counted from one, downwards and to the
right. -/
def boxArea (side down across : Int) (s : Square) : Bool :=
  (s.row - 1) / side == down - 1 && (s.column - 1) / side == across - 1

/-- The board is a solution of a board with given cells. -/
structure Completes (b given : Board) : Prop where
  size : b.size = given.size
  alphabet : b.alphabet = given.alphabet
  /-- Every square has a value, and there is no cell off the board. -/
  full : b.cells.map Cell.square = allSquares b.size
  rows : ∀ row ∈ oneTo b.size, ∀ v ∈ b.alphabet, b.occurrences v (rowArea row) = 1
  columns : ∀ column ∈ oneTo b.size, ∀ v ∈ b.alphabet, b.occurrences v (columnArea column) = 1
  boxes : ∀ side ∈ oneTo b.size, side * side = b.size →
    ∀ down ∈ oneTo side, ∀ across ∈ oneTo side, ∀ v ∈ b.alphabet,
      b.occurrences v (boxArea side down across) = 1
  /-- The given cells stay. -/
  keeps : ∀ c ∈ given.cells, c ∈ b.cells

instance (b given : Board) : Decidable (b.Completes given) :=
  decidable_of_iff
    (b.size = given.size ∧ b.alphabet = given.alphabet ∧
      b.cells.map Cell.square = allSquares b.size ∧
      (∀ row ∈ oneTo b.size, ∀ v ∈ b.alphabet, b.occurrences v (rowArea row) = 1) ∧
      (∀ column ∈ oneTo b.size, ∀ v ∈ b.alphabet, b.occurrences v (columnArea column) = 1) ∧
      (∀ side ∈ oneTo b.size, side * side = b.size →
        ∀ down ∈ oneTo side, ∀ across ∈ oneTo side, ∀ v ∈ b.alphabet,
          b.occurrences v (boxArea side down across) = 1) ∧
      ∀ c ∈ given.cells, c ∈ b.cells)
    ⟨fun ⟨size, alphabet, full, rows, columns, boxes, keeps⟩ =>
        ⟨size, alphabet, full, rows, columns, boxes, keeps⟩,
      fun ⟨size, alphabet, full, rows, columns, boxes, keeps⟩ =>
        ⟨size, alphabet, full, rows, columns, boxes, keeps⟩⟩

example :
    (parse ["1234", "3412", "2143", "4321"]).toOption.map (fun b => decide (b.Completes b))
      = some true := by
  decide +kernel

example :
    (parse ["1234", "2341", "3412", "4123"]).toOption.map (fun b => decide (b.Completes b))
      = some false := by
  decide +kernel

end DancingLinks.Sudoku.Board
