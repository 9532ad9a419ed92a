import DancingLinks.Proofs.Queens.Solutions
import DancingLinks.Proofs.Search.Endings

/-!
# Covers of a board of queens

Whatever queens are given, on the board or off it, a cover of the matrix of a board is a selection of
open squares that fits its lines (`Encoding.namesFits`), so it leaves no row empty
(`Encoding.namesCovers`). On a board whose numbers can be read every cover is decoded; on a larger one its
last row is not, so no cover is. Hence the searches of any board are uniform (`Board.uniform`).

In the row of a given queen that stands on the board only her own square is open, so she is part of
every solution. One that does not stand on the board is part of none (`Board.mem_queens_of_solve`).
-/

namespace DancingLinks.Queens

open DancingLinks.Matrix (Built ofConstraintLines)

variable {n : Int} {squares : List Square} {q s : Square} {o : Options} {b : Board}

namespace Encoding

variable {e : Encoding} {m : Matrix}

/-! ## The matrix of a board -/

/-- A matrix that the lines of a board become was built for its open squares. -/
theorem of_ofConstraintLines (made : ofConstraintLines e.lines = .ok m) :
    ∃ choices, Built m ⟨e.primaryNames, e.secondaryNames, choices⟩ ∧
      choices.map Choice.content = e.openSquares.map fun s => (squareName s, e.uses s) := by
  obtain ⟨choices, built, contents⟩ := Matrix.of_rowTexts e.isBlankText_header
    (Matrix.columnNames_header plain_of_mem_names) made
  refine ⟨choices, built, contents.trans (Matrix.lineContents_map ?_ ?_ 1)⟩
  · exact fun s hs i => Matrix.rowName_rowText (plain_of_mem_openSquares hs) _
  · exact fun s hs => rowValues_rowLine (onBoard_of_mem_openSquares hs)

/-- It encodes the open squares, on any board. -/
theorem exists_encodes (made : ofConstraintLines e.lines = .ok m) :
    ∃ (choices : List (Choice String)) (read : String → Square),
      Built m ⟨e.primaryNames, e.secondaryNames, choices⟩ ∧
      (Problem.mk e.primaryNames e.secondaryNames choices).Encodes e.openSquares squareName e.uses
        read := by
  obtain ⟨choices, built, contents⟩ := of_ofConstraintLines made
  obtain ⟨read, known⟩ := e.exists_known
  exact ⟨choices, read, built, contents, e.nodup_openSquares, known⟩

/-- The covers of the matrix of a board are named after the selections of open squares that fit. -/
theorem namesFits (e : Encoding) : NamesCovers e.lines squareName
    (Fits e.openSquares e.uses e.primaryNames e.secondaryNames) := by
  intro m made
  obtain ⟨choices, read, built, encodes⟩ := exists_encodes made
  refine ⟨_, built, fun rows cover => ⟨_, (encodes.isCover_iff cover.available).1 cover, ?_⟩⟩
  exact encodes.map_name cover.available

/-- Open squares that leave no row of the board empty. -/
structure FillsRows (e : Encoding) (squares : List Square) : Prop where
  available : ∀ s ∈ squares, s ∈ e.openSquares
  rows : ∀ i ∈ oneTo e.size, ∃ s ∈ squares, s.row = i

/-- A selection that fits leaves no row empty. -/
theorem fillsRows_of_fits (fits : Fits e.openSquares e.uses e.primaryNames e.secondaryNames squares) :
    e.FillsRows squares where
  available := fits.available
  rows := fun _ mem => List.mem_map.1 ((rows_perm_of_fits fits).mem_iff.2 mem)

/-- The covers of the matrix of a board are named after squares that leave no row empty. -/
theorem namesCovers (e : Encoding) : NamesCovers e.lines squareName e.FillsRows :=
  e.namesFits.mono fun _ => fillsRows_of_fits

/-- In the row of a queen on the board no other square is open. -/
theorem FillsRows.mem (fills : e.FillsRows squares) (given : q ∈ e.queens) (onBoard : q.OnBoard e.size) :
    q ∈ squares := by
  obtain ⟨s, hs, same⟩ := fills.rows q.row onBoard.row_mem
  obtain ⟨there, unattacked⟩ := mem_openSquares_iff.1 (fills.available s hs)
  by_contra missing
  have differ : s ≠ q := fun eq => missing (eq ▸ hs)
  exact unattacked q given ((mem_attacked onBoard).2 ⟨there, differ, .inl same.symm⟩)

end Encoding

namespace Board

variable {e : Encoding}

/-! ## Decoding covers -/

/-- Squares that leave no row empty are decoded when the size can be read, -/
theorem ofNames_of_short (fills : e.FillsRows squares) (short : e.size.toNat < Text.Integer.writeBound) :
    ofNames e.size (squares.map squareName) = .ok (of e.size squares) :=
  ofNames_eq short fun s hs => Encoding.onBoard_of_mem_openSquares (fills.available s hs)

/-- and only then, since one of them is in the last row. -/
theorem ofNames_of_long (fills : e.FillsRows squares)
    (long : Text.Integer.writeBound ≤ e.size.toNat) :
    ∃ fault, ofNames e.size (squares.map squareName) = .error fault := by
  have positive := e.positive
  obtain ⟨s, hs, last⟩ := fills.rows e.size (mem_oneTo.2 ⟨positive, Int.le_refl _⟩)
  obtain ⟨top, -, left, -⟩ := Encoding.onBoard_of_mem_openSquares (fills.available s hs)
  have fails := readSquareName_of_long (s := s) (by omega) (by omega) (by rwa [last])
  obtain ⟨fault, failed⟩ := exists_mapM_error (List.mem_map_of_mem hs) fails
  exact ⟨fault, by rw [ofNames, failed]; rfl⟩

/-- A solution that was decoded from a cover holds its squares. -/
theorem eq_of_ofNames {b : Board} (fills : e.FillsRows squares)
    (decoded : ofNames e.size (squares.map squareName) = .ok b) : b = of e.size squares := by
  rcases Nat.lt_or_ge e.size.toNat Text.Integer.writeBound with short | long
  · exact Except.ok.inj (decoded.symm.trans (ofNames_of_short fills short))
  · obtain ⟨fault, failed⟩ := ofNames_of_long fills long
    cases decoded.symm.trans failed

/-! ## Searches -/

/-- A board without squares is not searched. -/
theorem solve_of_size (small : ¬1 ≤ b.size) (o : Options) : b.solve o = .error (.boardSize b.size) := by
  have refused : Encoding.of b.size b.queens = .error (.boardSize b.size) := dif_neg small
  simp only [solve, search, refused, bind, Except.bind]
  rfl

/-- The searches of a board differ in their limits and their order only. -/
theorem uniform (b : Board) : Uniform fun o => b.solve o := by
  by_cases positive : 1 ≤ b.size
  · simp only [solve, search_eq positive]
    refine (b.encoding positive).namesCovers.uniform ?_
    rcases Nat.lt_or_ge b.size.toNat Text.Integer.writeBound with short | long
    · exact .inl fun squares fills => ⟨of b.size squares, ofNames_of_short fills short⟩
    · exact .inr fun squares fills => ofNames_of_long fills long
  · exact uniform_of_error (solve_of_size positive)

/-- A given queen is part of a solution exactly when she stands on the board. -/
theorem mem_queens_of_solve {boards : List Board} (solved : b.solve o = .ok boards) :
    ∀ s ∈ boards, ∀ q ∈ b.queens, (q ∈ s.queens ↔ q.OnBoard b.size) := by
  by_cases positive : 1 ≤ b.size
  · rw [solve, search_eq positive] at solved
    obtain ⟨report, encoded, rfl⟩ := ok_of_map solved
    intro s hs q hq
    obtain ⟨squares, fills, decoded⟩ := (b.encoding positive).namesCovers.exists_cells encoded s hs
    rw [eq_of_ofNames fills decoded]
    have queens : q ∈ (of b.size squares).queens ↔ q ∈ squares :=
      mem_distinctSorted Square.eq_of_not_lt
    refine queens.trans ⟨fun mem => ?_, fills.mem hq⟩
    exact Encoding.onBoard_of_mem_openSquares (fills.available q mem)
  · rw [solve_of_size positive] at solved
    cases solved

end Board

end DancingLinks.Queens
