import DancingLinks.Queens.Board
import DancingLinks.Settings
import DancingLinks.Sudoku.Board
import DancingLinks.Text.Lines
import DancingLinks.Viewer.Gallery

/-!
# The puzzles of the viewer

The viewer solves an empty board of queens, and a sudoku that is read from a file or built in. It
looks for no more solutions than it shows, nor than the settings allow.
-/

namespace DancingLinks.Viewer

/-- The sudoku that is solved when no file is given. -/
def sampleSudoku : List String :=
  ["..9748...", "7........", ".2.1.9...", "..7...24.", ".64.1.59.", ".98...3..", "...8.3.2.",
    "........6", "...2759.."]

/-- The lines of a puzzle file, or of the sample when there is no file. -/
def loadSudoku (file : Option (List UInt8)) : Except Fault (List String) :=
  match file with
  | none => .ok sampleSudoku
  | some bytes => ((Text.Utf8.decode bytes).mapError .encoding).map Text.lines

/-- The boards of queens that are shown, row by row whatever selector is set. -/
def solveQueens (s : Settings) (size : Int) : Except Fault (List (List String)) := do
  let options := { (← s.options) with selector := .first }
  let boards ← (Queens.Board.of size []).solve (s.capped options)
  return boards.map Queens.Board.toLines

/-- The solved boards of a sudoku, the squares it fixes, and its size. -/
structure SolvedSudoku where
  boards : List (List String)
  givens : List Mark
  size : Int
  deriving DecidableEq, Repr

/-- The boards of a sudoku that are shown. -/
def solveSudoku (s : Settings) (lines : List String) : Except Fault SolvedSudoku := do
  let puzzle ← Sudoku.Board.parse lines
  let boards ← puzzle.solve (s.capped (← s.options))
  return ⟨boards.map Sudoku.Board.toLines, marks puzzle.toLines, puzzle.size⟩

end DancingLinks.Viewer
