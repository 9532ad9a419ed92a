import DancingLinks.Queens.Board

/-!
# The rules of queens

What a solution of a board is, said without lines of a board, rays or exact covers: as many queens
as the board has rows, no two of which attack each other, and the given queens among them.
-/

namespace DancingLinks.Queens

/-- Two squares share a row, a column or a diagonal. -/
def Aligned (a b : Square) : Prop :=
  a.row = b.row ∨ a.column = b.column ∨ a.row + a.column = b.row + b.column ∨
    a.row - a.column = b.row - b.column

instance (a b : Square) : Decidable (Aligned a b) := inferInstanceAs (Decidable (_ ∨ _))

theorem Aligned.symm {a b : Square} (h : Aligned a b) : Aligned b a := by
  unfold Aligned at *; omega

/-- Squares are aligned when a line passes through both of them. -/
theorem aligned_iff {size : Int} {a b : Square} :
    Aligned a b ↔ ∃ line ∈ linesThrough size a, line ∈ linesThrough size b := by
  simp only [Aligned, linesThrough, List.mem_cons, List.not_mem_nil, or_false, exists_eq_or_imp,
    Line.row.injEq, Line.column.injEq, Line.rising.injEq, Line.falling.injEq, reduceCtorEq,
    exists_eq_left, false_or]
  omega

namespace Board

/-- The board is a solution of a board with given queens. -/
structure Completes (b given : Board) : Prop where
  size : b.size = given.size
  onBoard : ∀ q ∈ b.queens, q.OnBoard b.size
  /-- As many queens as there are rows. -/
  full : (b.queens.length : Int) = b.size
  /-- No queen attacks another. -/
  peaceful : b.queens.Pairwise fun p q => ¬ Aligned p q
  /-- The given queens stay. -/
  keeps : ∀ q ∈ given.queens, q ∈ b.queens

instance (b given : Board) : Decidable (b.Completes given) :=
  decidable_of_iff
    (b.size = given.size ∧ (∀ q ∈ b.queens, q.OnBoard b.size) ∧
      (b.queens.length : Int) = b.size ∧ (b.queens.Pairwise fun p q => ¬ Aligned p q) ∧
      ∀ q ∈ given.queens, q ∈ b.queens)
    ⟨fun ⟨size, onBoard, full, peaceful, keeps⟩ => ⟨size, onBoard, full, peaceful, keeps⟩,
      fun ⟨size, onBoard, full, peaceful, keeps⟩ => ⟨size, onBoard, full, peaceful, keeps⟩⟩

example : (Board.of 4 [⟨1, 2⟩, ⟨2, 4⟩, ⟨3, 1⟩, ⟨4, 3⟩]).Completes (.of 4 [⟨3, 1⟩]) := by
  decide +kernel

example : ¬ (Board.of 4 [⟨1, 2⟩, ⟨2, 4⟩, ⟨3, 1⟩, ⟨4, 2⟩]).Completes (.of 4 []) := by
  decide +kernel

end Board

end DancingLinks.Queens
