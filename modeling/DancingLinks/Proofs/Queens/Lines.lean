import DancingLinks.Proofs.Queens.Names
import DancingLinks.Proofs.Search.Encoded
import DancingLinks.Proofs.Square
import DancingLinks.Queens.Rules

/-!
# The lines of a board and their text form

A square of the board lies on lines of the board (`onBoard_of_mem_linesThrough`), which have
different names (`Line.OnBoard.inj_name`), and it uses the columns of these (`name_mem_uses`).

The open squares are `Writable`: they are known by their names (`exists_known`), although on a very
large board not all of these can be read. So the constraint lines of a board with an open square become
a matrix that encodes its open squares (`ofConstraintLines_ok`). When no square is open there is only a
header, which is refused (`ofConstraintLines_of_none`).
-/

namespace DancingLinks.Queens

open DancingLinks.Matrix (Plain Built ofConstraintLines)

variable {n : Int} {line other : Line} {s t : Square}

/-! ## Lines of a board -/

namespace Line

/-- The line is one of the board. -/
def OnBoard (n : Int) : Line → Prop
  | .row number => number ∈ oneTo n
  | .column number => number ∈ oneTo n
  | .rising number => number ∈ oneTo (2 * n - 1)
  | .falling number => number ∈ oneTo (2 * n - 1)

theorem OnBoard.nonneg (onBoard : line.OnBoard n) : 0 ≤ line.number := by
  cases line with
  | row i | column i | rising i | falling i =>
    have low : 1 ≤ i := (mem_oneTo.1 onBoard).1
    show 0 ≤ i
    omega

/-- Lines of the board are told by their names. -/
theorem OnBoard.inj_name (onBoard : line.OnBoard n) (onBoard' : other.OnBoard n)
    (same : line.name = other.name) : line = other :=
  name_inj onBoard.nonneg onBoard'.nonneg same

end Line

theorem mem_lines : line ∈ primaryLines n ++ secondaryLines n ↔ line.OnBoard n := by
  cases line <;> simp [primaryLines, secondaryLines, Line.OnBoard]

/-- No line is listed twice. -/
theorem nodup_lines (n : Int) : (primaryLines n ++ secondaryLines n).Nodup := by
  have rows := (nodup_oneTo n).map fun i j same => Line.row.inj same
  have columns := (nodup_oneTo n).map fun i j same => Line.column.inj same
  have rising := (nodup_oneTo (2 * n - 1)).map fun i j same => Line.rising.inj same
  have falling := (nodup_oneTo (2 * n - 1)).map fun i j same => Line.falling.inj same
  -- Lines of different kinds differ.
  refine (rows.append columns ?_).append (rising.append falling ?_) ?_
  all_goals
    intro line first second
    cases line <;> simp [secondaryLines] at first second

/-- The lines through a square of the board are lines of the board. -/
theorem onBoard_of_mem_linesThrough (onBoard : s.OnBoard n) (mem : line ∈ linesThrough n s) :
    line.OnBoard n := by
  obtain ⟨top, bottom, left, right⟩ := onBoard
  simp only [linesThrough, List.mem_cons, List.not_mem_nil, or_false] at mem
  rcases mem with rfl | rfl | rfl | rfl <;> refine mem_oneTo.2 ?_ <;> omega

theorem nodup_linesThrough (n : Int) (s : Square) : (linesThrough n s).Nodup := by
  simp [linesThrough]

/-- The numbers of a square of the board are not negative, and short when the size is. -/
theorem named_of_onBoard (short : n.toNat < Text.Integer.writeBound) (onBoard : s.OnBoard n) :
    Named s := by
  obtain ⟨top, bottom, left, right⟩ := onBoard
  exact ⟨by omega, by omega, by omega, by omega⟩

namespace Encoding

variable {e : Encoding}

/-! ## Columns -/

/-- The names of the lines that must hold a queen. -/
def primaryNames (e : Encoding) : List String := (primaryLines e.size).map Line.name

/-- The names of the lines that may hold a queen. -/
def secondaryNames (e : Encoding) : List String := (secondaryLines e.size).map Line.name

/-- The names of the lines through a square. -/
def uses (e : Encoding) (s : Square) : List String := (linesThrough e.size s).map Line.name

/-- The square with some name. -/
def readSquare (name : String) : Square := (readSquareName name).toOption.getD default

theorem mem_names {name : String} :
    name ∈ e.primaryNames ++ e.secondaryNames ↔ ∃ line : Line, line.OnBoard e.size ∧ line.name = name := by
  rw [primaryNames, secondaryNames, ← List.map_append, List.mem_map]
  exact exists_congr fun line => and_congr_left fun _ => mem_lines

theorem plain_of_mem_names : ∀ name ∈ e.primaryNames ++ e.secondaryNames, Plain name := by
  intro name mem
  obtain ⟨line, onBoard, rfl⟩ := mem_names.1 mem
  exact Line.plain_name onBoard.nonneg

/-- A square of the board uses the column of a line of the board when the line passes through it. -/
theorem name_mem_uses (onBoard : s.OnBoard e.size) (lineOnBoard : line.OnBoard e.size) :
    line.name ∈ e.uses s ↔ line ∈ linesThrough e.size s := by
  constructor
  · intro mem
    obtain ⟨other, through, same⟩ := List.mem_map.1 mem
    have otherOnBoard := onBoard_of_mem_linesThrough onBoard through
    exact otherOnBoard.inj_name lineOnBoard same ▸ through
  · exact List.mem_map_of_mem

theorem onBoard_of_mem_openSquares (mem : s ∈ e.openSquares) : s.OnBoard e.size :=
  mem_allSquares.1 (List.mem_filter.1 mem).1

theorem nodup_openSquares (e : Encoding) : e.openSquares.Nodup := (nodup_allSquares e.size).filter _

theorem plain_of_mem_openSquares (mem : s ∈ e.openSquares) : Plain (squareName s) := by
  obtain ⟨top, -, left, -⟩ := onBoard_of_mem_openSquares mem
  exact plain_squareName (by omega) (by omega)

/-- A square of the board uses columns of the board. -/
theorem uses_subset (onBoard : s.OnBoard e.size) : e.uses s ⊆ e.primaryNames ++ e.secondaryNames := by
  intro name mem
  obtain ⟨line, through, rfl⟩ := List.mem_map.1 mem
  exact mem_names.2 ⟨line, onBoard_of_mem_linesThrough onBoard through, rfl⟩

/-- The open squares are read from their names, when the board is not too large. -/
theorem readSquare_squareName (short : e.size.toNat < Text.Integer.writeBound) :
    ∀ s ∈ e.openSquares, readSquare (squareName s) = s := by
  intro s mem
  have named := named_of_onBoard short (onBoard_of_mem_openSquares mem)
  rw [readSquare, readSquareName_squareName named]
  rfl

/-- The open squares are known by their names on any board, even where these are too long to be read.
-/
theorem exists_known (e : Encoding) :
    ∃ read : String → Square, ∀ s ∈ e.openSquares, read (squareName s) = s := by
  have inj : Set.InjOn squareName {s | s ∈ e.openSquares} := by
    intro s hs t ht same
    obtain ⟨top, -, left, -⟩ := onBoard_of_mem_openSquares hs
    obtain ⟨top', -, left', -⟩ := onBoard_of_mem_openSquares ht
    exact squareName_inj (by omega) (by omega) (by omega) (by omega) same
  exact ⟨_, fun s mem => inj.leftInvOn_invFunOn mem⟩

/-- The row of a square that is written lists the names of its lines. -/
theorem rowValues_rowLine (onBoard : s.OnBoard e.size) :
    Matrix.rowValues (e.rowLine s) = e.uses s := by
  have top := onBoard.1
  have left := onBoard.2.2.1
  exact Matrix.rowValues_rowText (plain_squareName (by omega) (by omega)) fun name mem =>
    plain_of_mem_names name (uses_subset onBoard mem)

variable {read : String → Square}

/-- The open squares of a board can be written, and found again by their names. -/
theorem writable (known : ∀ s ∈ e.openSquares, read (squareName s) = s) :
    Writable e.openSquares squareName e.uses (e.primaryNames ++ e.secondaryNames) read where
  distinct := e.nodup_openSquares
  known := known
  plain := fun _ mem => plain_of_mem_openSquares mem
  different := by
    rw [primaryNames, secondaryNames, ← List.map_append]
    exact (nodup_lines e.size).map_on fun line hl other ho same =>
      (mem_lines.1 hl).inj_name (mem_lines.1 ho) same
  plainColumns := plain_of_mem_names
  declared := fun _ hs => uses_subset (onBoard_of_mem_openSquares hs)
  nodup := by
    intro s hs
    have onBoard : ∀ line ∈ linesThrough e.size s, line.OnBoard e.size := fun line =>
      onBoard_of_mem_linesThrough (onBoard_of_mem_openSquares hs)
    exact (nodup_linesThrough e.size s).map_on fun line hl other ho same =>
      (onBoard line hl).inj_name (onBoard other ho) same

/-! ## Constraint lines -/

/-- The header holds a bar. -/
theorem isBlankText_header (e : Encoding) : Text.isBlankText e.header = false := by
  have bar : Matrix.columnSeparator ∈ e.header.toList := by
    simp only [header, String.toList_append, List.mem_append]
    exact .inl (.inr (by decide))
  exact List.all_eq_false.2 ⟨_, bar, by decide⟩

/-- The lines of a board with an open square become a matrix that encodes its open squares. -/
theorem ofConstraintLines_ok (known : ∀ s ∈ e.openSquares, read (squareName s) = s)
    (any : e.openSquares ≠ []) :
    ∃ m choices, ofConstraintLines e.lines = .ok m ∧
      Built m ⟨e.primaryNames, e.secondaryNames, choices⟩ ∧
      (Problem.mk e.primaryNames e.secondaryNames choices).Encodes e.openSquares squareName e.uses
        read :=
  (writable known).ofConstraintLines_ok (Matrix.columnNames_header plain_of_mem_names)
    e.isBlankText_header any

/-- The lines of a board without an open square are refused. -/
theorem ofConstraintLines_of_none (none : e.openSquares = []) :
    ofConstraintLines e.lines = .error .tooFewLines := by
  have alone : e.lines.filter (!Text.isBlankText ·) = [e.header] := by
    simp [lines, none, e.isBlankText_header]
  rw [ofConstraintLines, Matrix.ofLines, alone]

end Encoding

end DancingLinks.Queens
