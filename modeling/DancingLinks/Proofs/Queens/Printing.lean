import DancingLinks.Proofs.Queens.Covers
import DancingLinks.Proofs.Sudoku.Parsed

/-!
# Boards of queens that are written and read

Queens are read from lines like the cells of a sudoku, whose values do not matter
(`queensOnLines_eq`). So a board whose queens stand on it is read from its lines (`parse_toLines`). When every
row holds one queen, so does every line (`count_queen`), and in a solution every row does
(`rows_perm_of_solve`).
-/

namespace DancingLinks.Queens.Board

open Sudoku (Cell)
open Sudoku.Board (cellsOnLine cellsOnLines)

variable {b : Board} {boards : List Board} {o : Options} {cells : List Cell} {line : String} {n : Nat}
  {s : Square}

/-! ## Reading -/

theorem queensOnLine_eq (row column : Int) (cs : List Char) :
    queensOnLine row column cs = (cellsOnLine row column cs).map Cell.square := by
  induction cs generalizing column with
  | nil => rfl
  | cons c cs ih =>
    unfold queensOnLine cellsOnLine
    dsimp only
    rw [ih, apply_ite (List.map Cell.square)]
    rfl

/-- Queens stand on the squares of the cells that a sudoku would have there. -/
theorem queensOnLines_eq (n first : Nat) (lines : List String) :
    queensOnLines n first lines = (cellsOnLines n first lines).map (List.map Cell.square) := by
  induction lines generalizing first with
  | nil => rfl
  | cons line lines ih =>
    unfold queensOnLines cellsOnLines
    split
    · rfl
    · rw [ih, queensOnLine_eq]
      cases cellsOnLines n (first + 1) lines with
      | error fault => rfl
      | ok cells => exact congrArg Except.ok List.map_append.symm

/-- Only the lines that count are read. -/
theorem parse_eq (lines : List String) : parse lines =
    (queensOnLines (gridRows lines).length 1 (gridRows lines)).map (of (gridRows lines).length) := by
  show (queensOnLines (gridRows lines).length 1 (gridRows lines) >>= _) = _
  cases queensOnLines (gridRows lines).length 1 (gridRows lines) <;> rfl

/-! ## Writing -/

/-- The character that is written for a square. -/
def charAt (b : Board) (s : Square) : Char := if s ∈ b.queens then 'X' else emptySymbol

theorem charAt_eq_queen : b.charAt s = 'X' ↔ s ∈ b.queens := by
  by_cases mem : s ∈ b.queens <;> simp [charAt, emptySymbol, mem]

theorem charAt_ne_empty : b.charAt s ≠ emptySymbol ↔ s ∈ b.queens := by
  by_cases mem : s ∈ b.queens <;> simp [charAt, emptySymbol, mem]

theorem toLines_eq (b : Board) :
    b.toLines = gridLines b.size fun s => String.singleton (b.charAt s) := by
  refine congrArg (gridLines b.size) (funext fun s => ?_)
  unfold charAt
  split <;> rfl

theorem isSquare_toLines (positive : 1 ≤ b.size) : IsSquare b.size b.toLines := by
  rw [toLines_eq]
  exact isSquare_gridLines positive _

/-- Nothing gets lost when the lines are read. -/
theorem gridRows_toLines (positive : 1 ≤ b.size) : gridRows b.toLines = b.toLines := by
  refine gridRows_eq_self fun line mem => ⟨fun empty => ?_, fun x there => ?_⟩
  · have length := (isSquare_toLines positive).width line mem
    rw [← String.length_toList, empty, List.length_nil] at length
    omega
  · obtain ⟨s, shown⟩ := exists_showsAt mem there
    rw [toLines_eq] at shown
    obtain ⟨-, rfl⟩ := showsAt_gridLines.1 shown
    unfold charAt
    split <;> decide

/-- On the lines of a board the queens are read that stand on it. -/
theorem mem_squares_iff (onBoard : ∀ q ∈ b.queens, q.OnBoard b.size)
    (read : cellsOnLines n 1 b.toLines = .ok cells) :
    s ∈ cells.map Cell.square ↔ s ∈ b.queens := by
  have shows : ∀ {x}, ShowsAt b.toLines s x ↔ s.OnBoard b.size ∧ x = b.charAt s := by
    rw [toLines_eq]
    exact showsAt_gridLines
  rw [List.mem_map]
  constructor
  · rintro ⟨c, hc, rfl⟩
    obtain ⟨x, shown, solid, -⟩ := (Sudoku.Board.mem_cells_iff read).1 hc
    obtain ⟨-, rfl⟩ := shows.1 shown
    exact charAt_ne_empty.1 solid
  · intro mem
    refine ⟨⟨s, String.singleton (b.charAt s)⟩, (Sudoku.Board.mem_cells_iff read).2 ?_, rfl⟩
    exact ⟨_, shows.2 ⟨onBoard s mem, rfl⟩, charAt_ne_empty.2 mem, rfl⟩

/-- A board whose queens stand on it is read from its lines. -/
theorem parse_toLines (positive : 1 ≤ b.size) (onBoard : ∀ q ∈ b.queens, q.OnBoard b.size) :
    parse b.toLines = .ok b := by
  obtain ⟨height, width⟩ := isSquare_toLines positive
  obtain ⟨cells, read⟩ : ∃ cells, cellsOnLines b.toLines.length 1 b.toLines = .ok cells :=
    Sudoku.Board.exists_cellsOnLines.2 fun line mem =>
      Int.ofNat.inj ((width line mem).trans height.symm)
  have queens : (of b.toLines.length (cells.map Cell.square)).queens = b.queens :=
    eq_of_mem_iff Square.lt_asymm (of _ _).ordered b.ordered fun q =>
      (mem_distinctSorted Square.eq_of_not_lt).trans (mem_squares_iff onBoard read)
  rw [parse_eq, gridRows_toLines positive, queensOnLines_eq, read]
  refine congrArg Except.ok ?_
  cases b
  rw [mk.injEq]
  exact ⟨height, queens⟩

/-- When there is one queen in every row, there is one on every line. -/
theorem count_queen (onBoard : ∀ q ∈ b.queens, q.OnBoard b.size)
    (rows : (b.queens.map Square.row).Perm (oneTo b.size)) (mem : line ∈ b.toLines) :
    line.toList.count 'X' = 1 := by
  rw [toLines_eq] at mem
  obtain ⟨i, hi, rfl⟩ := List.mem_map.1 mem
  obtain ⟨q, hq, rfl⟩ := List.mem_map.1 (rows.mem_iff.2 hi)
  have alone : ∀ j, b.charAt ⟨q.row, j⟩ = 'X' ↔ j = q.column := by
    intro j
    rw [charAt_eq_queen]
    constructor
    · intro there
      have same := List.inj_on_of_nodup_map (rows.nodup_iff.2 (nodup_oneTo b.size)) there hq rfl
      exact congrArg Square.column same
    · rintro rfl
      exact hq
  rw [toList_join_oneTo fun j => b.charAt ⟨q.row, j⟩, List.count, List.countP_map,
    ← List.count_eq_one_of_mem (nodup_oneTo b.size) (onBoard q hq).column_mem, List.count]
  refine List.countP_congr fun j _ => ?_
  simp only [Function.comp_apply, beq_iff_eq, alone]

/-! ## Solutions -/

/-- Whatever the options, the solutions of a board have one queen in every row. -/
theorem rows_perm_of_solve (solved : b.solve o = .ok boards) : ∀ s ∈ boards,
    1 ≤ s.size ∧ (∀ q ∈ s.queens, q.OnBoard s.size) ∧
      (s.queens.map Square.row).Perm (oneTo s.size) := by
  by_cases positive : 1 ≤ b.size
  · rw [solve, search_eq positive] at solved
    obtain ⟨report, encoded, rfl⟩ := ok_of_map solved
    intro s hs
    obtain ⟨squares, fits, decoded⟩ := (b.encoding positive).namesFits.exists_cells encoded s hs
    rw [eq_of_ofNames (Encoding.fillsRows_of_fits fits) decoded]
    have perm : (of b.size squares).queens.Perm squares := queens_of_perm fits.distinct
    refine ⟨positive, fun q hq => ?_, (perm.map _).trans (Encoding.rows_perm_of_fits fits)⟩
    exact Encoding.onBoard_of_fits fits q (perm.mem_iff.1 hq)
  · rw [solve_of_size positive] at solved
    cases solved

end DancingLinks.Queens.Board
