import DancingLinks.Sorted

/-!
# Squares

Squares of a board have a row and a column, both counted from one; a square may also lie off the
board. They are ordered by row and then by column.
-/

namespace DancingLinks

/-- A square, on the board or off it. -/
structure Square where
  row : Int
  column : Int
  deriving DecidableEq, Repr, Inhabited

namespace Square

instance : LT Square := ⟨fun a b => a.row < b.row ∨ a.row = b.row ∧ a.column < b.column⟩

instance : DecidableLT Square := fun a b =>
  inferInstanceAs (Decidable (a.row < b.row ∨ a.row = b.row ∧ a.column < b.column))

theorem lt_iff {a b : Square} : a < b ↔ a.row < b.row ∨ a.row = b.row ∧ a.column < b.column := .rfl

theorem lt_trans (a b c : Square) (ab : a < b) (bc : b < c) : a < c := by
  rw [lt_iff] at *; omega

theorem lt_irrefl (a : Square) : ¬ a < a := by rw [lt_iff]; omega

theorem eq_of_not_lt (a b : Square) (ab : ¬ a < b) (ba : ¬ b < a) : a = b := by
  cases a; cases b; rw [lt_iff] at *; simp only [mk.injEq] at *; omega

/-- The square lies on the board of some size. -/
def OnBoard (size : Int) (s : Square) : Prop :=
  1 ≤ s.row ∧ s.row ≤ size ∧ 1 ≤ s.column ∧ s.column ≤ size

instance (size : Int) (s : Square) : Decidable (s.OnBoard size) :=
  inferInstanceAs (Decidable (_ ∧ _))

/-- The square some rows down and some columns to the right. -/
def shift (s : Square) (rows columns : Int) : Square := ⟨s.row + rows, s.column + columns⟩

end Square

/-- The integers from one to `n`. -/
def oneTo (n : Int) : List Int := (List.range n.toNat).map fun (i : Nat) => (i : Int) + 1

theorem mem_oneTo {n i : Int} : i ∈ oneTo n ↔ 1 ≤ i ∧ i ≤ n := by
  simp only [oneTo, List.mem_map, List.mem_range]
  constructor
  · rintro ⟨k, lt, rfl⟩; omega
  · rintro ⟨low, high⟩; exact ⟨(i - 1).toNat, by omega, by omega⟩

/-- The squares of the board of some size, row by row. -/
def allSquares (size : Int) : List Square :=
  (oneTo size).flatMap fun row => (oneTo size).map fun column => ⟨row, column⟩

theorem mem_allSquares {size : Int} {s : Square} : s ∈ allSquares size ↔ s.OnBoard size := by
  obtain ⟨row, column⟩ := s
  simp only [allSquares, List.mem_flatMap, List.mem_map, mem_oneTo, Square.OnBoard, Square.mk.injEq]
  constructor
  · rintro ⟨r, hr, c, hc, rfl, rfl⟩; omega
  · rintro ⟨h1, h2, h3, h4⟩; exact ⟨row, ⟨h1, h2⟩, column, ⟨h3, h4⟩, rfl, rfl⟩

/-- The lines of a grid of some size, with what `symbol` puts on each square. -/
def gridLines (size : Int) (symbol : Square → String) : List String :=
  (oneTo size).map fun row => String.join ((oneTo size).map fun column => symbol ⟨row, column⟩)

end DancingLinks
