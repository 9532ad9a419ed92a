import DancingLinks.Fault
import DancingLinks.Repeated
import DancingLinks.Square
import DancingLinks.Text.Blank

/-!
# Cells

A cell is a square with a value. Cells are ordered by square and then by value; the cells of a board
lie on different squares.
-/

namespace DancingLinks.Sudoku

/-- A square with a value. -/
structure Cell where
  square : Square
  value : String
  deriving DecidableEq, Repr, Inhabited

namespace Cell

instance : LT Cell := ⟨fun a b => a.square < b.square ∨ a.square = b.square ∧ a.value < b.value⟩

instance : DecidableLT Cell := fun a b =>
  inferInstanceAs (Decidable (a.square < b.square ∨ a.square = b.square ∧ a.value < b.value))

theorem lt_iff {a b : Cell} :
    a < b ↔ a.square < b.square ∨ a.square = b.square ∧ a.value < b.value := .rfl

theorem lt_asymm (a b : Cell) (ab : a < b) : ¬ b < a := by
  rw [lt_iff, Square.lt_iff] at *
  rintro (ba | ⟨same, ba⟩)
  · rcases ab with ab | ⟨same, _⟩
    · omega
    · rw [same] at ba; omega
  · rcases ab with ab | ⟨_, ab⟩
    · rw [same] at ab; omega
    · exact String.lt_asymm ab ba

theorem not_lt_trans (a b c : Cell) (ab : ¬ b < a) (bc : ¬ c < b) : ¬ c < a := by
  rw [lt_iff] at *
  simp only [not_or, not_and] at *
  have ab_le : a.square < b.square ∨ a.square = b.square := by
    by_cases h : a.square < b.square
    · exact .inl h
    · exact .inr (Square.eq_of_not_lt _ _ h ab.1)
  have bc_le : b.square < c.square ∨ b.square = c.square := by
    by_cases h : b.square < c.square
    · exact .inl h
    · exact .inr (Square.eq_of_not_lt _ _ h bc.1)
  constructor
  · intro ca
    rw [Square.lt_iff] at *
    rcases ab_le with ab_lt | ab_eq <;> rcases bc_le with bc_lt | bc_eq
    · omega
    · rw [← bc_eq] at ca; omega
    · rw [ab_eq] at ca; omega
    · rw [ab_eq, bc_eq] at ca; omega
  · intro ca
    have ab_eq : a.square = b.square := by
      rcases ab_le with ab_lt | ab_eq
      · rcases bc_le with bc_lt | bc_eq
        · rw [Square.lt_iff] at *; rw [ca] at bc_lt; omega
        · rw [bc_eq, ca] at ab_lt; exact absurd ab_lt (Square.lt_irrefl _)
      · exact ab_eq
    have bc_eq : b.square = c.square := by rw [← ab_eq, ca]
    exact String.not_lt.2 (String.le_trans (String.not_lt.1 (ab.2 ab_eq.symm))
      (String.not_lt.1 (bc.2 bc_eq.symm)))

end Cell

/-- Cells on different squares, once sorted, are on increasing squares. -/
theorem pairwise_square_sorted {cells : List Cell} (distinct : (cells.map Cell.square).Nodup) :
    (sorted cells).Pairwise fun a b => a.square < b.square := by
  have nodup : ((sorted cells).map Cell.square).Nodup :=
    ((sorted_perm cells).map Cell.square).nodup_iff.2 distinct
  have order := pairwise_sorted Cell.lt_asymm Cell.not_lt_trans cells
  rw [List.nodup_iff_pairwise_ne, List.pairwise_map] at nodup
  refine (order.and nodup).imp fun {a b} ⟨notLess, differ⟩ => ?_
  rw [Cell.lt_iff, not_or] at notLess
  by_cases h : a.square < b.square
  · exact h
  · exact absurd (Square.eq_of_not_lt _ _ h notLess.1) differ

/-- Refuses cells of which two lie on one square. -/
def checkDistinct (cells : List Cell) : Except Fault Unit :=
  match firstRepeated (cells.map Cell.square) with
  | some square => .error (.duplicateCell square.row square.column)
  | none => .ok ()

/-- The cells, when they lie on different squares. -/
def indexed (cells : List Cell) : Except Fault (List Cell) :=
  (checkDistinct cells).map fun _ => cells

/-! ## Names -/

/-- The name of a cell. -/
def cellName (c : Cell) : String := s!"r{c.square.row}c{c.square.column}#{c.value}"

/-- The decimal digits at the start of a text, of which there must be one, and what follows them up
to `stop` and further. -/
def numeralBefore (stop : Char) (cs : List Char) : Option (List Char × List Char) :=
  match cs.takeWhile Text.isDecimal, cs.dropWhile Text.isDecimal with
  | _ :: _, c :: rest => if c = stop then some (cs.takeWhile Text.isDecimal, rest) else none
  | _, _ => none

/-- The parts of the name of a cell: its row, its column and its value, which is not empty and holds
no line feed. -/
def nameParts (cs : List Char) : Option (List Char × List Char × List Char) := do
  let 'r' :: cs := cs | none
  let (row, cs) ← numeralBefore 'c' cs
  let (column, value) ← numeralBefore '#' cs
  if value.isEmpty ∨ '\n' ∈ value then none else some (row, column, value)

/-- The cell with some name. -/
def readCellName (name : String) : Except Fault Cell :=
  match nameParts name.toList with
  | none => .error (.badRowName name)
  | some (row, column, value) => do
    let row ← (Text.Integer.read (String.ofList row)).mapError .integer
    let column ← (Text.Integer.read (String.ofList column)).mapError .integer
    return ⟨⟨row, column⟩, String.ofList value⟩

end DancingLinks.Sudoku
