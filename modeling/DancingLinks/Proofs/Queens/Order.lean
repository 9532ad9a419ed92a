import DancingLinks.Proofs.ExactCover.Order
import DancingLinks.Proofs.Queens.Covers

/-!
# The order of the solutions

Nothing but rows and columns of the board is branched on, and the rows are in front. So when the leftmost
column of the matrix is always taken, a branch goes through the rows of the board from the first to the
last (`pivots_of_mem_branches`). The candidates of a row are tried in the order of their columns, so the
boards come in lexicographic order of the columns of their queens (`Board.solve_increasing`).
-/

namespace DancingLinks.Queens

variable {n : Int} {squares : List Square} {b : Board} {o : Options} {boards : List Board}

/-! ## Squares row by row -/

/-- Squares in increasing rows are in order. -/
theorem pairwise_of_rows (rows : squares.map Square.row = oneTo n) : squares.Pairwise (· < ·) := by
  have increasing := pairwise_oneTo n
  rw [← rows, List.pairwise_map] at increasing
  exact increasing.imp .inl

/-- Of squares in the same rows the columns decide. -/
theorem columns_lex {squares squares' : List Square}
    (rows : squares.map Square.row = squares'.map Square.row)
    (less : List.Lex (· < ·) squares squares') :
    List.Lex (· < ·) (squares.map Square.column) (squares'.map Square.column) := by
  induction less with
  | nil => cases rows
  | cons _ ih => exact .cons (ih (List.cons.inj rows).2)
  | rel less =>
    have same := (List.cons.inj rows).1
    rcases less with above | ⟨-, left⟩
    · omega
    · exact .rel left

namespace Encoding

/-! ## Branches row by row -/

/-- The name of a row of the board tells its number. -/
theorem rowName_injective : Function.Injective fun i => (Line.row i).name := by
  intro i j same
  have chars := congrArg String.toList same
  simp only [Line.name, String.toList_append, List.append_cancel_left_eq] at chars
  exact Text.toString_inj chars

theorem primaryNames_eq (e : Encoding) : e.primaryNames =
    (oneTo e.size).map (fun i => (Line.row i).name) ++
      (oneTo e.size).map fun i => (Line.column i).name := by
  rw [primaryNames, primaryLines, List.map_append, List.map_map, List.map_map]
  rfl

section Branches

variable {e : Encoding} {choices : List (Choice String)} {read : String → Square}
  {branch : List (Choice String × String)}
  (encodes : (Problem.mk e.primaryNames e.secondaryNames choices).Encodes e.openSquares squareName
    e.uses read)

include encodes

/-- A square uses the name of a row when it is in the row. -/
theorem row_eq_of_mem_columns {r : Choice String} {i : Int} (hr : r ∈ choices) (hi : i ∈ oneTo e.size)
    (used : (Line.row i).name ∈ r.columns) : i = (read r.name).row := by
  obtain ⟨open_, -, columns⟩ := encodes.of_mem hr
  rw [columns] at used
  have through := (name_mem_uses (onBoard_of_mem_openSquares open_)
    (show (Line.row i).OnBoard e.size from hi)).1 used
  simpa [linesThrough] using through

/-- A branch that always takes the leftmost column branches on the rows of the board, from the first to
the last. -/
theorem pivots_of_mem_branches
    (mem : branch ∈ (Problem.mk e.primaryNames e.secondaryNames choices).branches .first) :
    branch.map Prod.snd = (oneTo e.size).map fun i => (Line.row i).name := by
  have front : (oneTo e.size).map (fun i => (Line.row i).name) <+: branch.map Prod.snd := by
    refine Problem.prefix_of_mem_branches e.primaryNames_eq
      ((nodup_oneTo e.size).map rowName_injective) ?_ mem
    intro r hr name hname name' hname' used used'
    obtain ⟨i, hi, rfl⟩ := List.mem_map.1 hname
    obtain ⟨j, hj, rfl⟩ := List.mem_map.1 hname'
    rw [row_eq_of_mem_columns encodes hr hi used, row_eq_of_mem_columns encodes hr hj used']
  -- There is one square in each row, so nothing is branched on after the rows.
  have cover := Problem.isCover_of_mem_branches mem
  have length := (rows_perm_of_fits ((encodes.isCover_iff cover.available).1 cover)).length_eq
  rw [List.length_map, List.length_map] at length
  refine (front.eq_of_length ?_).symm
  rw [List.length_map, List.length_map, ← length, List.length_map]

/-- So its squares are in these rows. -/
theorem rows_of_mem_branches
    (mem : branch ∈ (Problem.mk e.primaryNames e.secondaryNames choices).branches .first) :
    (Problem.Encodes.selection read branch).map Square.row = oneTo e.size := by
  have pivots := pivots_of_mem_branches encodes mem
  refine rowName_injective.list_map ?_
  rw [← pivots, Problem.Encodes.selection, List.map_map, List.map_map, List.map_map]
  refine List.map_congr_left fun branched here => ?_
  obtain ⟨hr, used⟩ := Problem.of_mem_branches mem branched here
  have pivot : branched.2 ∈ branch.map Prod.snd := List.mem_map_of_mem here
  rw [pivots] at pivot
  obtain ⟨i, hi, name⟩ := List.mem_map.1 pivot
  rw [← name] at used ⊢
  rw [row_eq_of_mem_columns encodes hr hi used]
  rfl

/-- The squares along the branches are in lexicographic order. -/
theorem pairwise_selections_lex (s : Selector) :
    (((Problem.mk e.primaryNames e.secondaryNames choices).branches s).map
      (Problem.Encodes.selection read)).Pairwise (List.Lex (· < ·)) := by
  have ordered : choices.Pairwise fun r r' => read r.name < read r'.name := by
    have increasing := (pairwise_allSquares e.size).filter
      (· ∉ e.queens.flatMap (attacked e.size))
    rw [← openSquares, ← encodes.map_read] at increasing
    exact List.pairwise_map.1 increasing
  rw [List.pairwise_map]
  refine (Problem.pairwise_branches_lex ordered).imp fun less => ?_
  rwa [Problem.Encodes.selection, Problem.Encodes.selection, List.map_map, List.map_map]

end Branches

end Encoding

namespace Board

/-! ## Boards row by row -/

/-- The columns of the queens, from the first row to the last. -/
def columns (b : Board) : List Int := b.queens.map Square.column

/-- The queens of a board that is made row by row. -/
theorem queens_of_rows (rows : squares.map Square.row = oneTo n) : (of n squares).queens = squares :=
  have increasing := pairwise_of_rows rows
  eq_of_perm Square.lt_asymm (of n squares).ordered increasing
    (queens_of_perm (Square.nodup_of_increasing increasing))

/-- A search that always takes the leftmost column ends with the boards of squares row by row, in
lexicographic order. -/
theorem exists_rows_of_solve (leftmost : o.selector = .first) (solved : b.solve o = .ok boards) :
    ∃ found : List (List Square), boards = found.map (of b.size) ∧
      (∀ squares ∈ found, squares.map Square.row = oneTo b.size) ∧
      found.Pairwise (List.Lex (· < ·)) := by
  by_cases positive : 1 ≤ b.size
  · rw [solve, search_eq positive] at solved
    obtain ⟨report, encoded, rfl⟩ := ok_of_map solved
    obtain ⟨_, linesSolved, -⟩ := ok_of_bind encoded
    obtain ⟨m, made, -⟩ := ok_of_bind linesSolved
    obtain ⟨choices, read, built, encodes⟩ := Encoding.exists_encodes made
    refine ⟨_, encodes.solutions_eq made built (fun branch hb s decoded => ?_) encoded, ?_, ?_⟩
    · have cover := Problem.isCover_of_mem_branches hb
      have fits := (encodes.isCover_iff cover.available).1 cover
      exact eq_of_ofNames (Encoding.fillsRows_of_fits fits) decoded
    · intro squares mem
      obtain ⟨branch, hb, rfl⟩ := List.mem_map.1 (Options.mem_of_mem_cut mem)
      rw [leftmost] at hb
      exact Encoding.rows_of_mem_branches encodes hb
    · exact (Encoding.pairwise_selections_lex encodes o.selector).sublist (o.cut_sublist _)
  · rw [solve_of_size positive] at solved
    cases solved

/-- Solving a board with the default options ends with boards that have a queen in every row, in
lexicographic order of their columns. -/
theorem solve_increasing (solved : b.solve = .ok boards) :
    (∀ s ∈ boards, s.queens.map Square.row = oneTo b.size) ∧
      boards.Pairwise fun s t => s.columns < t.columns := by
  obtain ⟨found, rfl, rows, lex⟩ := exists_rows_of_solve rfl solved
  constructor
  · intro s hs
    obtain ⟨squares, mem, rfl⟩ := List.mem_map.1 hs
    rw [queens_of_rows (rows squares mem), rows squares mem]
  · refine List.pairwise_map.2 (lex.imp_of_mem fun {squares squares'} mem mem' less => ?_)
    have first := rows squares mem
    have second := rows squares' mem'
    rw [columns, columns, queens_of_rows first, queens_of_rows second]
    exact columns_lex (first.trans second.symm) less

/-- A board of four rows has two solutions, and these are in order. -/
theorem solve_increasing_sample : ∃ boards, (of 4 []).solve = .ok boards ∧
    of 4 [⟨1, 2⟩, ⟨2, 4⟩, ⟨3, 1⟩, ⟨4, 3⟩] ∈ boards ∧ of 4 [⟨1, 3⟩, ⟨2, 1⟩, ⟨3, 4⟩, ⟨4, 2⟩] ∈ boards ∧
    (∀ s ∈ boards, s.queens.map Square.row = oneTo 4) ∧
      boards.Pairwise fun s t => s.columns < t.columns := by
  have any : (of 4 []).Open := ⟨⟨1, 1⟩, by decide, by decide⟩
  obtain ⟨boards, -, completes, solves⟩ :=
    solve_ok (b := of 4 []) (by decide) (by decide +kernel) (by decide) any .first
  have solved : (of 4 []).solve = .ok boards := solves defaultOptions rfl nofun
  exact ⟨boards, solved, (completes _).2 (by decide +kernel), (completes _).2 (by decide +kernel),
    solve_increasing solved⟩

end Board

end DancingLinks.Queens
