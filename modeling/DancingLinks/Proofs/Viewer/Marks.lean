import DancingLinks.Proofs.Sudoku.Shown
import DancingLinks.Viewer.Drawing

/-!
# The marks of a board

The marks on lines of text tell, for every row and column, which character stands there
(`find_marks`). So the marks on the lines of a sudoku board tell the values of its squares
(`find_marks_toLines`), and when the squares are gone through row by row, its cells are met in order
(`filterMap_allSquares`).
-/

namespace DancingLinks.Viewer

open Sudoku (Board Cell isSymbol charOf charOf_symbol)
open Sudoku.Board (valueAt_eq_some_iff symbol_of_valueAt toLines_eq)

variable {m : Mark} {cs : List Char} {lines : List String} {row column : Int}

/-! ## Marks on lines -/

/-- The mark is in some row and column. -/
def Mark.isAt (row column : Int) (m : Mark) : Bool := m.row == row && m.column == column

theorem Mark.isAt_iff : m.isAt row column = true ↔ m.row = row ∧ m.column = column := by
  rw [isAt, Bool.and_eq_true, beq_iff_eq, beq_iff_eq]

/-- The mark that a character makes; a dot makes none. -/
def markOf? (row column : Int) (x : Char) : Option Mark :=
  if x = '.' then none else some ⟨row, column, String.singleton x⟩

theorem marksOnLine_cons (row column : Int) (x : Char) (cs : List Char) :
    marksOnLine row column (x :: cs) =
      (markOf? row column x).toList ++ marksOnLine row (column + 1) cs := by
  unfold markOf?
  rw [marksOnLine]
  split <;> rfl

theorem of_markOf? {x : Char} (made : markOf? row column x = some m) :
    m.row = row ∧ m.column = column := by
  unfold markOf? at made
  split at made
  · cases made
  · cases made
    exact ⟨rfl, rfl⟩

/-- The marks on a line are in its row, and not left of where it begins. -/
theorem of_mem_marksOnLine (mem : m ∈ marksOnLine row column cs) :
    m.row = row ∧ column ≤ m.column := by
  induction cs generalizing column with
  | nil => cases mem
  | cons x cs ih =>
    rw [marksOnLine_cons, List.mem_append, Option.mem_toList] at mem
    rcases mem with first | mem
    · obtain ⟨there, here⟩ := of_markOf? first
      exact ⟨there, Int.le_of_eq here.symm⟩
    · obtain ⟨there, right⟩ := ih mem
      exact ⟨there, by omega⟩

/-- The marks on lines are in their rows. -/
theorem of_mem_marksFrom (mem : m ∈ marksFrom row lines) : row ≤ m.row := by
  induction lines generalizing row with
  | nil => cases mem
  | cons line lines ih =>
    rcases List.mem_append.1 mem with mem | mem
    · exact Int.le_of_eq (of_mem_marksOnLine mem).1.symm
    · have below := ih mem
      omega

/-- There is no mark where all marks are in other places. -/
theorem find_eq_none {ms : List Mark} (apart : ∀ m ∈ ms, m.row ≠ row ∨ m.column ≠ column) :
    ms.find? (Mark.isAt row column) = none := by
  refine List.find?_eq_none.2 fun m mem here => ?_
  obtain ⟨there, right⟩ := Mark.isAt_iff.1 here
  rcases apart m mem with differ | differ
  · exact differ there
  · exact differ right

/-- The mark of a character is the one in its place. -/
theorem find_markOf? (row column : Int) (x : Char) :
    (markOf? row column x).toList.find? (Mark.isAt row column) = markOf? row column x := by
  unfold markOf?
  split
  · rfl
  · exact List.find?_cons_of_pos (Mark.isAt_iff.2 ⟨rfl, rfl⟩)

/-- The mark in some column of a line is that of the character there. -/
theorem find_marksOnLine (row column : Int) (cs : List Char) (i : Nat) :
    (marksOnLine row column cs).find? (Mark.isAt row (column + i)) =
      cs[i]?.bind (markOf? row (column + i)) := by
  induction cs generalizing column i with
  | nil => rfl
  | cons x cs ih =>
    rw [marksOnLine_cons, List.find?_append]
    cases i with
    | zero =>
      have others : (marksOnLine row (column + 1) cs).find? (Mark.isAt row column) = none :=
        find_eq_none fun m mem => .inr (by have := of_mem_marksOnLine mem; omega)
      rw [Int.natCast_zero, Int.add_zero, others, Option.or_none, find_markOf?]
      rfl
    | succ i =>
      have shifted : column + ((i + 1 : Nat) : Int) = column + 1 + i := by omega
      have first : (markOf? row column x).toList.find? (Mark.isAt row (column + (i + 1 : Nat))) =
          none :=
        find_eq_none fun m mem => .inr (by have := of_markOf? (Option.mem_toList.1 mem); omega)
      rw [first, Option.none_or, shifted, ih (column + 1) i, List.getElem?_cons_succ]

/-- The mark in some row and column is that of the character there. -/
theorem find_marksFrom (row : Int) (lines : List String) (i j : Nat) :
    (marksFrom row lines).find? (Mark.isAt (row + i) j) =
      lines[i]?.bind fun line => line.toList[j]?.bind (markOf? (row + i) j) := by
  induction lines generalizing row i with
  | nil => rfl
  | cons line lines ih =>
    rw [marksFrom, List.find?_append]
    cases i with
    | zero =>
      have others : (marksFrom (row + 1) lines).find? (Mark.isAt row j) = none :=
        find_eq_none fun m mem => .inl (by have := of_mem_marksFrom mem; omega)
      have here := find_marksOnLine row 0 line.toList j
      rw [Int.zero_add] at here
      rw [Int.natCast_zero, Int.add_zero, others, Option.or_none, here]
      rfl
    | succ i =>
      have shifted : row + ((i + 1 : Nat) : Int) = row + 1 + i := by omega
      have above : (marksOnLine row 0 line.toList).find? (Mark.isAt (row + (i + 1 : Nat)) j) =
          none :=
        find_eq_none fun m mem => .inl (by have := of_mem_marksOnLine mem; omega)
      rw [above, Option.none_or, shifted, ih (row + 1) i, List.getElem?_cons_succ]

/-- The mark in some row and column of a board is that of the character there. -/
theorem find_marks (lines : List String) (i j : Nat) :
    (marks lines).find? (Mark.isAt i j) =
      lines[i]?.bind fun line => line.toList[j]?.bind (markOf? i j) := by
  have found := find_marksFrom 0 lines i j
  rwa [Int.zero_add] at found

/-! ## Marks on a sudoku board -/

variable {b : Board}

/-- The mark in some row and column of a sudoku board shows the value of the square there. -/
theorem find_marks_toLines (symbols : ∀ c ∈ b.cells, isSymbol c.value = true) {i j : Nat}
    (hi : i < b.size.toNat) (hj : j < b.size.toNat) :
    (marks b.toLines).find? (Mark.isAt i j) =
      (b.valueAt ⟨i + 1, j + 1⟩).map (Mark.mk i j) := by
  have shown := char_gridLines (fun s => charOf (b.valueAt s)) hi hj
  rw [find_marks, toLines_eq symbols, ← Option.bind_assoc, shown, Option.bind_some]
  cases here : b.valueAt ⟨i + 1, j + 1⟩ with
  | none => rfl
  | some v =>
    obtain ⟨text, solid⟩ := charOf_symbol (symbol_of_valueAt symbols here)
    have noDot : ¬charOf (some v) = '.' := solid
    rw [markOf?, if_neg noDot, text]
    rfl

/-! ## The squares row by row -/

theorem allSquares_eq (n : Int) :
    allSquares n = (places n.toNat).map fun p => (⟨p.1 + 1, p.2 + 1⟩ : Square) := by
  simp only [allSquares, oneTo, places, List.flatMap_map, List.map_flatMap, List.map_map]
  rfl

/-- When the squares of a board are gone through, its cells are met in order. -/
theorem filterMap_allSquares (onBoard : ∀ c ∈ b.cells, c.square.OnBoard b.size) :
    (allSquares b.size).filterMap (fun s => (b.valueAt s).map (Cell.mk s)) = b.cells := by
  have order : ((allSquares b.size).filterMap fun s => (b.valueAt s).map (Cell.mk s)).Pairwise
      fun c d => c.square < d.square := by
    refine List.pairwise_filterMap.2 ((pairwise_allSquares b.size).imp fun less c hc d hd => ?_)
    obtain ⟨_, -, rfl⟩ := Option.map_eq_some_iff.1 hc
    obtain ⟨_, -, rfl⟩ := Option.map_eq_some_iff.1 hd
    exact less
  refine eq_of_mem_iff (fun c d => Square.lt_asymm c.square d.square) order b.ordered fun c => ?_
  rw [List.mem_filterMap]
  constructor
  · rintro ⟨s, -, met⟩
    obtain ⟨v, here, rfl⟩ := Option.map_eq_some_iff.1 met
    exact valueAt_eq_some_iff.1 here
  · intro mem
    refine ⟨c.square, mem_allSquares.2 (onBoard c mem), ?_⟩
    rw [valueAt_eq_some_iff.2 mem]
    rfl

end DancingLinks.Viewer
