import DancingLinks.Proofs.Queens.Printing
import DancingLinks.Proofs.Sudoku.Printing

/-!
# What is answered

A matrix, a board of queens and a sudoku are searched in the same way, so the same holds of their
answers:

* a limit takes the first of the solutions that are found without one (`limit_takes_prefix`);
* the questions for a solution and for exactly one agree with every search for all of them
  (`questions_agree`).

Of the givens a solution keeps the queens that stand on the board, and the cells without the blanks
around their values (`givens_kept`); the others get lost (`givens_dropped`). A solution is read again from
the lines that are written for it (`solutions_read_back`).
-/

namespace DancingLinks

open DancingLinks.Matrix (Built Nested)

variable {o : Options}

/-! ## Sudokus of one symbol -/

/-- The sudoku of one symbol whose cell is to be filled. -/
def emptySudoku : Sudoku.Board := ⟨1, [], ["1"], .nil⟩

/-- The sudoku of one symbol whose cell is filled. -/
def fullSudoku : Sudoku.Board := ⟨1, [⟨⟨1, 1⟩, "1"⟩], ["1"], List.pairwise_singleton _ _⟩

/-- The sudoku of one symbol whose cell is filled with a blank behind the symbol. -/
def paddedSudoku : Sudoku.Board := ⟨1, [⟨⟨1, 1⟩, "1 "⟩], ["1"], List.pairwise_singleton _ _⟩

/-! ## Limits -/

/-- A limit takes the first of the solutions that are found with the same selector and no limit, and
a search with a limit fails exactly when the one without it does. -/
theorem limit_takes_prefix (patient : o.Patient) (limit : Limit) :
    (∀ {start m : Matrix} {q : Problem String} {covered : List Nat}, Built start q →
      Nested start covered m →
        (m.solve { o with limit := some limit }).result
          = (m.solve { o with limit := none }).result.map (List.take limit.count)) ∧
    (∀ b : Queens.Board, b.solve { o with limit := some limit }
      = (b.solve { o with limit := none }).map (List.take limit.count)) ∧
    (∀ {n : Int} {cells : List Sudoku.Cell} {alphabet : List String} {b : Sudoku.Board},
      Sudoku.Board.of n cells alphabet = .ok b →
        b.solve { o with limit := some limit }
          = (b.solve { o with limit := none }).map (List.take limit.count)) := by
  refine ⟨fun built nested => ?_, fun b => b.uniform.limited patient limit, fun made => ?_⟩
  · obtain ⟨p, stands, -⟩ := built.stands nested
    exact stands.uniform.limited patient limit
  · have size := (Sudoku.Board.eq_of_of made).1
    exact (Sudoku.Board.uniform size).limited patient limit

/-- The first of the two solutions of the sample, and what a limit of one finds on an empty board of
queens and on a sudoku with a cell to fill. -/
theorem limit_takes_prefix_sample :
    (Matrix.sample.solve { limit := some .one }).result.toOption = some [⟨[[9], [6, 7]]⟩] ∧
    (Queens.Board.of 4 []).solve { limit := some .one }
      = ((Queens.Board.of 4 []).solve {}).map (List.take 1) ∧
    emptySudoku.solve { limit := some .one } = (emptySudoku.solve {}).map (List.take 1) := by
  obtain ⟨matrix, queens, sudoku⟩ := limit_takes_prefix (o := {}) nofun .one
  have made : Sudoku.Board.of 1 [] ["1"] = .ok emptySudoku := rfl
  have first := matrix Matrix.built_sample .start
  refine ⟨?_, queens _, sudoku made⟩
  rw [first]
  decide +kernel

/-! ## Questions -/

/-- A search with some options ends, and the questions for a solution and for exactly one are answered
by what it finds. -/
def Answered {α : Type} (solve : Options → Except Fault (List α)) (o : Options) : Prop :=
  ∃ xs, solve o = .ok xs ∧ hasSolutions solve = .ok (!xs.isEmpty) ∧
    hasUniqueSolution solve = .ok (xs.length == 1)

/-- The questions are always answered for a matrix, and for a board when its search with the default
options ends with boards. They agree with every search without a limit. -/
theorem questions_agree (patient : o.Patient) (unlimited : o.limit = none) :
    (∀ {start m : Matrix} {q : Problem String} {covered : List Nat}, Built start q →
      Nested start covered m → Answered (fun o => (m.solve o).result) o) ∧
    (∀ {b : Queens.Board} {boards : List Queens.Board}, b.solve = .ok boards →
      Answered (fun o => b.solve o) o) ∧
    (∀ {n : Int} {cells : List Sudoku.Cell} {alphabet : List String} {b : Sudoku.Board}
      {boards : List Sudoku.Board}, Sudoku.Board.of n cells alphabet = .ok b → b.solve = .ok boards →
        Answered (fun o => b.solve o) o) := by
  refine ⟨fun built nested => ?_, fun {b boards} ended => ?_, fun made ended => ?_⟩
  · obtain ⟨p, stands, -⟩ := built.stands nested
    exact stands.uniform.answers patient unlimited (stands.solve patient).1 patient unlimited
  · exact b.uniform.answers (o := Queens.Board.defaultOptions) nofun rfl ended patient unlimited
  · have size := (Sudoku.Board.eq_of_of made).1
    exact (Sudoku.Board.uniform size).answers (o := {}) nofun rfl ended patient unlimited

/-- The sample, a board on which two queens would attack each other, and a sudoku with a cell to fill,
searched in the order of the columns. -/
theorem questions_agree_sample :
    Answered (fun o => (Matrix.sample.solve o).result) { selector := .first } ∧
    Answered (fun o => (Queens.Board.of 2 []).solve o) { selector := .first } ∧
    Answered (fun o => emptySudoku.solve o) { selector := .first } := by
  obtain ⟨matrix, queens, sudoku⟩ := questions_agree (o := { selector := .first }) nofun rfl
  have none : (Queens.Board.of 2 []).solve = .ok [] := eq_ok_of_toOption (by decide +kernel)
  have filled : emptySudoku.solve = .ok [fullSudoku] := eq_ok_of_toOption (by decide +kernel)
  have made : Sudoku.Board.of 1 [] ["1"] = .ok emptySudoku := rfl
  exact ⟨matrix Matrix.built_sample .start, queens none, sudoku made filled⟩

/-! ## Givens -/

/-- Whatever the options, a given queen is part of a solution exactly when she stands on the board. Of a
given cell every solution holds its value without the blanks around it, so the cell is part of
a solution exactly when there are none. -/
theorem givens_kept (o : Options) :
    (∀ {b : Queens.Board} {boards : List Queens.Board}, b.solve o = .ok boards →
      ∀ s ∈ boards, ∀ q ∈ b.queens, (q ∈ s.queens ↔ q.OnBoard b.size)) ∧
    (∀ {n : Int} {cells : List Sudoku.Cell} {alphabet : List String} {b : Sudoku.Board}
      {boards : List Sudoku.Board}, Sudoku.Board.of n cells alphabet = .ok b → b.solve o = .ok boards →
        ∀ s ∈ boards, ∀ g ∈ cells,
          g.trimmed ∈ s.cells ∧ (g ∈ s.cells ↔ Text.trim g.value = g.value)) := by
  refine ⟨fun solved => Queens.Board.mem_queens_of_solve solved, fun made solved s hs g hg => ?_⟩
  obtain ⟨size, -, cells⟩ := Sudoku.Board.eq_of_of made
  have given : g ∈ _ := cells ▸ mem_sorted.2 hg
  have same : g.trimmed = g ↔ Text.trim g.value = g.value := by
    cases g
    simp [Sudoku.Cell.trimmed]
  exact ⟨Sudoku.Board.trimmed_mem_of_solve size solved s hs g given,
    (Sudoku.Board.mem_cells_of_solve size solved s hs g given).trans same⟩

/-- A queen on her square, and a blank behind a symbol. -/
theorem givens_kept_sample :
    (∃ s, (Queens.Board.of 1 [⟨1, 1⟩]).solve = .ok [s] ∧ ⟨1, 1⟩ ∈ s.queens) ∧
    ∃ s, paddedSudoku.solve = .ok [s] ∧ ⟨⟨1, 1⟩, "1"⟩ ∈ s.cells := by
  obtain ⟨queens, -⟩ := givens_kept Queens.Board.defaultOptions
  obtain ⟨-, sudoku⟩ := givens_kept {}
  have placed : (Queens.Board.of 1 [⟨1, 1⟩]).solve = .ok [Queens.Board.of 1 [⟨1, 1⟩]] :=
    eq_ok_of_toOption (by decide +kernel)
  have filled : paddedSudoku.solve = .ok [fullSudoku] := eq_ok_of_toOption (by decide +kernel)
  have made : Sudoku.Board.of 1 [⟨⟨1, 1⟩, "1 "⟩] ["1"] = .ok paddedSudoku := rfl
  have queen := queens placed _ List.mem_cons_self ⟨1, 1⟩ (by decide)
  have cell := sudoku made filled _ List.mem_cons_self ⟨⟨1, 1⟩, "1 "⟩ List.mem_cons_self
  exact ⟨⟨_, placed, queen.2 (by decide)⟩, ⟨_, filled, cell.1⟩⟩

/-- Givens get lost without a fault: a queen off the board, and the value of a cell with a blank behind
it. -/
theorem givens_dropped :
    (∃ s, (Queens.Board.of 1 [⟨5, 5⟩]).solve = .ok [s] ∧
      ⟨5, 5⟩ ∈ (Queens.Board.of 1 [⟨5, 5⟩]).queens ∧ ⟨5, 5⟩ ∉ s.queens) ∧
    Sudoku.Board.of 1 [⟨⟨1, 1⟩, "1 "⟩] ["1"] = .ok paddedSudoku ∧
    ∃ s, paddedSudoku.solve = .ok [s] ∧
      ⟨⟨1, 1⟩, "1 "⟩ ∈ paddedSudoku.cells ∧ ⟨⟨1, 1⟩, "1 "⟩ ∉ s.cells := by
  have placed : (Queens.Board.of 1 [⟨5, 5⟩]).solve = .ok [Queens.Board.of 1 [⟨1, 1⟩]] :=
    eq_ok_of_toOption (by decide +kernel)
  have filled : paddedSudoku.solve = .ok [fullSudoku] := eq_ok_of_toOption (by decide +kernel)
  exact ⟨⟨_, placed, by decide, by decide⟩, rfl, _, filled, by decide, by decide⟩

/-! ## Lines -/

/-- Whatever the options, a solution is written as a grid of its size, from which it is read again: a
sudoku with its alphabet, and without an empty square, and a board of queens with one queen on every
line. -/
theorem solutions_read_back (o : Options) :
    (∀ {n : Int} {cells : List Sudoku.Cell} {alphabet : List String} {b : Sudoku.Board}
      {boards : List Sudoku.Board}, Sudoku.Board.of n cells alphabet = .ok b → b.solve o = .ok boards →
        ∀ s ∈ boards, Sudoku.Board.parse s.toLines = .ok s ∧ IsSquare s.size s.toLines ∧
          ∀ line ∈ s.toLines, '.' ∉ line.toList) ∧
    (∀ {b : Queens.Board} {boards : List Queens.Board}, b.solve o = .ok boards →
      ∀ s ∈ boards, Queens.Board.parse s.toLines = .ok s ∧ IsSquare s.size s.toLines ∧
        ∀ line ∈ s.toLines, line.toList.count 'X' = 1) := by
  refine ⟨fun made ended s hs => ?_, fun ended s hs => ?_⟩
  · have solved := Sudoku.Board.solved_of_solve made ended s hs
    refine ⟨solved.parse_toLines, solved.isSquare_toLines, fun line mem empty => ?_⟩
    exact (Sudoku.isSymbol_singleton.1 (solved.symbol_of_mem mem empty)).2.1 rfl
  · obtain ⟨positive, onBoard, rows⟩ := Queens.Board.rows_perm_of_solve ended s hs
    exact ⟨Queens.Board.parse_toLines positive onBoard, Queens.Board.isSquare_toLines positive,
      fun line mem => Queens.Board.count_queen onBoard rows mem⟩

/-- A sudoku of two symbols, one of which is given. -/
def twoSymbols : Sudoku.Board := ⟨2, [⟨⟨1, 1⟩, "b"⟩], ["b", "c"], List.pairwise_singleton _ _⟩

/-- Its solution. -/
def twoSymbolsFilled : Sudoku.Board :=
  ⟨2, [⟨⟨1, 1⟩, "b"⟩, ⟨⟨1, 2⟩, "c"⟩, ⟨⟨2, 1⟩, "c"⟩, ⟨⟨2, 2⟩, "b"⟩], ["b", "c"], by decide⟩

/-- A sudoku that was made of an alphabet which is neither in order nor of its size, and a board of one
square. -/
theorem solutions_read_back_sample :
    Sudoku.Board.of 2 [⟨⟨1, 1⟩, "b"⟩] ["c", "b", "a"] = .ok twoSymbols ∧
    (∃ boards, twoSymbols.solve = .ok boards ∧ twoSymbolsFilled ∈ boards) ∧
    Sudoku.Board.parse twoSymbolsFilled.toLines = .ok twoSymbolsFilled ∧
    twoSymbolsFilled.toLines = ["bc", "cb"] ∧
    ∃ s, (Queens.Board.of 1 []).solve {} = .ok [s] ∧ Queens.Board.parse ["X"] = .ok s := by
  obtain ⟨sudoku, queens⟩ := solutions_read_back {}
  have made : Sudoku.Board.of 2 [⟨⟨1, 1⟩, "b"⟩] ["c", "b", "a"] = .ok twoSymbols := rfl
  have sound : twoSymbols.encoding.Sound :=
    Sudoku.Board.encoding_sound (by decide) rfl (by decide) (by decide) (by decide)
  obtain ⟨boards, -, completes, solves⟩ := Sudoku.Board.solve_ok sound rfl .smaller
  have solved : twoSymbols.solve = .ok boards := solves {} rfl nofun
  have found : twoSymbolsFilled ∈ boards := (completes _).2 (by decide +kernel)
  have placed : (Queens.Board.of 1 []).solve {} = .ok [Queens.Board.of 1 [⟨1, 1⟩]] :=
    eq_ok_of_toOption (by decide +kernel)
  exact ⟨made, ⟨boards, solved, found⟩, (sudoku made solved _ found).1, by decide +kernel,
    _, placed, (queens placed _ List.mem_cons_self).1⟩

end DancingLinks
