import DancingLinks.Proofs.Matrix.Depiction
import DancingLinks.Proofs.Queens.Attacks
import DancingLinks.Proofs.Queens.Lines

/-!
# Attacks and columns

Which squares a queen attacks is found by walking over the board, and which squares exclude each other
in the matrix is told by the names of their lines. Both come to the same: a square is attacked from
another one exactly when the rows that are written for the two list a common column
(`mem_attacked_iff_shared`).

The matrix of a board `Portrays` it: its columns are the lines of the board in the order of their
numbers, and its rows are the squares from which no given queen is reached. The lines of a board with an
open square become such a matrix (`attacks_are_columns`).
-/

namespace DancingLinks.Queens.Encoding

open DancingLinks.Matrix (ofConstraintLines rowValues)

variable {e : Encoding} {s t : Square}

/-! ## Common columns -/

/-- A square of the board is attacked from another one when their rows list a common column. -/
theorem mem_attacked_iff_shared (hs : s.OnBoard e.size) (ht : t.OnBoard e.size) (differ : s ≠ t) :
    t ∈ attacked e.size s ↔
      ∃ name ∈ rowValues (e.rowLine s), name ∈ rowValues (e.rowLine t) := by
  rw [mem_attacked hs, rowValues_rowLine hs, rowValues_rowLine ht]
  constructor
  · rintro ⟨-, -, aligned⟩
    obtain ⟨line, through, through'⟩ := aligned_iff.1 aligned
    exact ⟨line.name, List.mem_map_of_mem through, List.mem_map_of_mem through'⟩
  · rintro ⟨name, used, used'⟩
    obtain ⟨line, through, rfl⟩ := List.mem_map.1 used
    have onBoard := onBoard_of_mem_linesThrough hs through
    exact ⟨ht, differ.symm, aligned_iff.2 ⟨line, through, (name_mem_uses ht onBoard).1 used'⟩⟩

/-! ## The matrix of a board -/

/-- The squares of the board from which no given queen is reached. -/
theorem mem_openSquares_iff_reached (given : ∀ q ∈ e.queens, q.OnBoard e.size) :
    s ∈ e.openSquares ↔ s.OnBoard e.size ∧ ∀ q ∈ e.queens, q ∉ attacked e.size s := by
  rw [mem_openSquares_iff]
  refine and_congr_right fun onBoard => forall₂_congr fun q mem => ?_
  rw [mem_attacked_comm (given q mem) onBoard]

/-- A matrix has the lines of a board as its columns, and some squares as its rows. -/
structure Portrays (e : Encoding) (m : Matrix) (squares : List Square) : Prop where
  /-- Rows and columns of the board must hold a queen. -/
  primary : m.primaryColumns.map (List.map m.mesh.labelText)
    = .ok ((oneTo e.size).map (fun i => s!"R{i}") ++ (oneTo e.size).map fun i => s!"C{i}")
  /-- Diagonals may hold one. -/
  secondary : m.secondaryColumns.map (List.map m.mesh.labelText)
    = .ok ((oneTo (2 * e.size - 1)).map (fun i => s!"A{i}")
      ++ (oneTo (2 * e.size - 1)).map fun i => s!"B{i}")
  rows : m.uncoveredRows.map (List.map m.mesh.labelText) = .ok (squares.map squareName)
  /-- The squares are in order, and none is listed twice. -/
  ordered : squares.Pairwise (· < ·)
  /-- They are those of the board from which no given queen is reached. -/
  reached : ∀ s, s ∈ squares ↔ s.OnBoard e.size ∧ ∀ q ∈ e.queens, q ∉ attacked e.size s
  /-- A name gives back its square, if the numbers of the square can be written at all. -/
  named : ∀ s ∈ squares, Text.Integer.checkWritable s.row = .ok () →
    Text.Integer.checkWritable s.column = .ok () → readSquareName (squareName s) = .ok s

/-- A number that can be written is short. -/
theorem short_of_checkWritable {i : Int} (written : Text.Integer.checkWritable i = .ok ()) :
    i.toNat < Text.Integer.writeBound := by
  unfold Text.Integer.checkWritable at written
  split at written
  · omega
  · cases written

/-- The lines of a board with an open square become a matrix that portrays the board. -/
theorem exists_portrays (given : ∀ q ∈ e.queens, q.OnBoard e.size) (any : e.openSquares ≠ []) :
    ∃ m squares, ofConstraintLines e.lines = .ok m ∧ e.Portrays m squares := by
  obtain ⟨read, known⟩ := e.exists_known
  obtain ⟨m, choices, made, built, encodes⟩ := ofConstraintLines_ok known any
  obtain ⟨primary, secondary, rows⟩ := built.shows_names
  have names : choices.map Choice.name = e.openSquares.map squareName := by
    have names := congrArg (List.map Prod.fst) encodes.contents
    rwa [List.map_map, List.map_map] at names
  refine ⟨m, e.openSquares, made, ?_, ?_, ?_, ?_, ?_, ?_⟩
  · rw [primary, primaryNames, primaryLines, List.map_append, List.map_map, List.map_map]
    rfl
  · rw [secondary, secondaryNames, secondaryLines, List.map_append, List.map_map, List.map_map]
    rfl
  · rw [rows, names]
  · exact (pairwise_allSquares e.size).filter _
  · exact fun s => mem_openSquares_iff_reached given
  · intro s mem row column
    obtain ⟨top, -, left, -⟩ := onBoard_of_mem_openSquares mem
    exact readSquareName_squareName
      ⟨by omega, by omega, short_of_checkWritable row, short_of_checkWritable column⟩

/-- Attacks and columns agree. Of two squares of a board either both attack each other, and then their
rows list a common column, or neither of this holds; no walk over the board comes to a square twice, or
back to its start. If some square is attacked by no given queen, the lines of the board become a matrix
that portrays it. -/
theorem attacks_are_columns (e : Encoding) :
    (∀ s t : Square, s.OnBoard e.size → t.OnBoard e.size → s ≠ t →
      (t ∈ attacked e.size s ↔ s ∈ attacked e.size t) ∧
      (t ∈ attacked e.size s ↔
        ∃ name ∈ rowValues (e.rowLine s), name ∈ rowValues (e.rowLine t))) ∧
    (∀ s : Square, s.OnBoard e.size → (attacked e.size s).Nodup ∧ s ∉ attacked e.size s) ∧
    ((∀ q ∈ e.queens, q.OnBoard e.size) →
      (∃ s : Square, s.OnBoard e.size ∧ ∀ q ∈ e.queens, s ∉ attacked e.size q) →
        ∃ m squares, ofConstraintLines e.lines = .ok m ∧ e.Portrays m squares) := by
  refine ⟨fun s t hs ht differ => ⟨mem_attacked_comm hs ht, mem_attacked_iff_shared hs ht differ⟩,
    fun s onBoard => ⟨nodup_attacked e.size s, fun back => ?_⟩, fun given open_ => ?_⟩
  · exact ((mem_attacked onBoard).1 back).2.1 rfl
  · obtain ⟨s, free⟩ := open_
    exact exists_portrays given (List.ne_nil_of_mem (mem_openSquares_iff.2 free))

/-- A board of four rows with a queen. -/
def oneQueen : Encoding := ⟨4, [⟨1, 2⟩], by decide⟩

/-- The queen is on a falling diagonal with the last square of the third row, and attacks neither the
first square of that row nor her own. -/
theorem attacks_are_columns_sample :
    (∃ name ∈ rowValues (oneQueen.rowLine ⟨1, 2⟩), name ∈ rowValues (oneQueen.rowLine ⟨3, 4⟩)) ∧
      ((attacked 4 ⟨1, 2⟩).Nodup ∧ ⟨1, 2⟩ ∉ attacked 4 ⟨1, 2⟩) ∧
      ∃ m squares, ofConstraintLines oneQueen.lines = .ok m ∧ oneQueen.Portrays m squares := by
  obtain ⟨agree, alone, portrayed⟩ := attacks_are_columns oneQueen
  have attacks : (⟨3, 4⟩ : Square) ∈ attacked 4 ⟨1, 2⟩ := by decide
  refine ⟨(agree ⟨1, 2⟩ ⟨3, 4⟩ (by decide) (by decide) (by decide)).2.1 attacks,
    alone ⟨1, 2⟩ (by decide), portrayed (by decide) ⟨⟨3, 1⟩, by decide, by decide⟩⟩

end DancingLinks.Queens.Encoding
