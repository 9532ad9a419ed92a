import DancingLinks.Proofs.Queens.Attacks
import DancingLinks.Proofs.Queens.Lines
import Mathlib.Data.List.Pairwise

/-!
# Placements of queens

A `Placement` on a board is a list of squares that share no line, one for every row of the board,
and the given queens are among them. The selections of open squares that fit the lines of the board
are the placements (`fits_iff_placement`). Nothing forces a given queen into such a selection but
this: in her row no other square is open, so the square that is chosen there is hers.
-/

namespace DancingLinks.Queens

variable {n : Int} {line : Line} {squares : List Square} {numbers : List Int}

/-! ## Counting -/

/-- Different numbers from one to `n`, as many as there are, are all of them. -/
theorem perm_oneTo (within : ∀ i ∈ numbers, i ∈ oneTo n) (nodup : numbers.Nodup)
    (full : (numbers.length : Int) = n) : numbers.Perm (oneTo n) := by
  refine (nodup.subperm within).perm_of_length_le ?_
  rw [length_oneTo]
  omega

/-- A property that no two elements share occurs at most once. -/
theorem countP_le_one {α : Type} {has : α → Bool} {xs : List α}
    (apart : xs.Pairwise fun x y => ¬(has x = true ∧ has y = true)) : xs.countP has ≤ 1 := by
  induction xs with
  | nil => exact Nat.zero_le 1
  | cons x xs ih =>
    obtain ⟨first, rest⟩ := List.pairwise_cons.1 apart
    cases hasX : has x with
    | false =>
      rw [List.countP_cons_of_neg (by simp [hasX])]
      exact ih rest
    | true =>
      have none : xs.countP has = 0 := List.countP_eq_zero.2 fun y mem hasY => first y mem ⟨hasX, hasY⟩
      rw [List.countP_cons_of_pos hasX, none]

theorem countP_row (squares : List Square) (i : Int) :
    squares.countP (.row i ∈ linesThrough n ·) = (squares.map Square.row).count i := by
  rw [List.count, List.countP_map]
  refine List.countP_congr fun s _ => ?_
  simp [linesThrough, eq_comm (a := i)]

theorem countP_column (squares : List Square) (i : Int) :
    squares.countP (.column i ∈ linesThrough n ·) = (squares.map Square.column).count i := by
  rw [List.count, List.countP_map]
  refine List.countP_congr fun s _ => ?_
  simp [linesThrough, eq_comm (a := i)]

theorem Aligned.refl (s : Square) : Aligned s s := .inl rfl

namespace Encoding

variable {e : Encoding}

/-- As many queens as the board has rows, none of which attacks another, and the given queens among
them. -/
structure Placement (e : Encoding) (squares : List Square) : Prop where
  onBoard : ∀ s ∈ squares, s.OnBoard e.size
  full : (squares.length : Int) = e.size
  peaceful : squares.Pairwise fun s t => ¬Aligned s t
  keeps : ∀ q ∈ e.queens, q ∈ squares

/-- The uses of a column are the squares on its line. -/
theorem countP_uses (onBoard : ∀ s ∈ squares, s.OnBoard e.size) (lineOnBoard : line.OnBoard e.size) :
    squares.countP (line.name ∈ e.uses ·) = squares.countP (line ∈ linesThrough e.size ·) := by
  refine List.countP_congr fun s mem => ?_
  simp only [decide_eq_true_eq]
  exact name_mem_uses (onBoard s mem) lineOnBoard

/-! ## From a selection to a placement -/

section Selection

variable (given : ∀ q ∈ e.queens, q.OnBoard e.size)
  (fits : Fits e.openSquares e.uses e.primaryNames e.secondaryNames squares)

include fits in
/-- The squares of a selection lie on the board. -/
theorem onBoard_of_fits : ∀ s ∈ squares, s.OnBoard e.size := fun s mem =>
  onBoard_of_mem_openSquares (fits.available s mem)

include fits in
/-- Every row holds one square. -/
theorem rows_perm_of_fits : (squares.map Square.row).Perm (oneTo e.size) := by
  have onBoard := onBoard_of_fits fits
  refine perm_of_count_eq_one (nodup_oneTo e.size) (fun i mem => ?_) fun i mem => ?_
  · obtain ⟨s, hs, rfl⟩ := List.mem_map.1 mem
    exact (onBoard s hs).row_mem
  · have row : (Line.row i).OnBoard e.size := mem
    rw [← countP_row (n := e.size), ← countP_uses onBoard row]
    exact fits.primary _ (List.mem_map_of_mem (List.mem_append_left _ (List.mem_map_of_mem mem)))

include fits in
/-- No line holds two squares. -/
theorem countP_le_one_of_fits (onBoard : line.OnBoard e.size) :
    squares.countP (line ∈ linesThrough e.size ·) ≤ 1 := by
  rw [← countP_uses (onBoard_of_fits fits) onBoard]
  rcases List.mem_append.1 (mem_lines.2 onBoard) with primary | secondary
  · exact Nat.le_of_eq (fits.primary _ (List.mem_map_of_mem primary))
  · exact fits.secondary _ (List.mem_map_of_mem secondary)

include given fits in
/-- A selection of open squares that fits the lines is a placement. -/
theorem placement_of_fits : e.Placement squares where
  onBoard := onBoard_of_fits fits
  full := by
    have length := (rows_perm_of_fits fits).length_eq
    have positive := e.positive
    rw [List.length_map, length_oneTo] at length
    omega
  peaceful := by
    refine fits.distinct.pairwise_of_forall_ne fun s hs t ht differ aligned => differ ?_
    have met : ∃ line ∈ linesThrough e.size s, line ∈ linesThrough e.size t :=
      aligned_iff.1 aligned
    obtain ⟨line, hline, hline'⟩ := met
    have onBoard := onBoard_of_mem_linesThrough (onBoard_of_fits fits s hs) hline
    exact Problem.eq_of_countP_le_one (countP_le_one_of_fits fits onBoard) hs ht
      (decide_eq_true hline) (decide_eq_true hline')
  keeps := by
    intro q hq
    -- The row of a given queen holds a square, and only hers is open there.
    have filled : q.row ∈ squares.map Square.row :=
      (rows_perm_of_fits fits).mem_iff.2 (given q hq).row_mem
    obtain ⟨s, hs, same⟩ := List.mem_map.1 filled
    obtain ⟨-, alone⟩ := (mem_openSquares given).1 (fits.available s hs)
    exact alone q hq (.inl same.symm) ▸ hs

end Selection

/-! ## From a placement to a selection -/

namespace Placement

variable (placement : e.Placement squares)

include placement

/-- Queens that share a line are the same. -/
theorem eq_of_aligned {s t : Square} (hs : s ∈ squares) (ht : t ∈ squares) (aligned : Aligned s t) :
    s = t := by
  by_contra differ
  have symmetric : Std.Symm fun s t => ¬Aligned s t := ⟨fun _ _ apart back => apart back.symm⟩
  exact placement.peaceful.forall hs ht differ aligned

theorem nodup : squares.Nodup := by
  refine placement.peaceful.imp fun {s t} apart same => apart ?_
  rw [same]
  exact Aligned.refl t

/-- A number that queens share only on a common line takes every value once. -/
theorem numbers_perm {number : Square → Int} (within : ∀ s ∈ squares, number s ∈ oneTo e.size)
    (shared : ∀ s t, number s = number t → Aligned s t) :
    (squares.map number).Perm (oneTo e.size) := by
  refine perm_oneTo (fun i mem => ?_) ?_ (by rw [List.length_map, placement.full])
  · obtain ⟨s, hs, rfl⟩ := List.mem_map.1 mem
    exact within s hs
  · exact List.pairwise_map.2 (placement.peaceful.imp fun {s t} apart same =>
      apart (shared s t same))

/-- Every row holds one queen. -/
theorem rows_perm : (squares.map Square.row).Perm (oneTo e.size) :=
  placement.numbers_perm (fun s hs => (placement.onBoard s hs).row_mem) fun _ _ => .inl

/-- Every column holds one queen. -/
theorem columns_perm : (squares.map Square.column).Perm (oneTo e.size) :=
  placement.numbers_perm (fun s hs => (placement.onBoard s hs).column_mem) fun _ _ same =>
    .inr (.inl same)

/-- No line holds two queens. -/
theorem countP_linesThrough_le_one (line : Line) :
    squares.countP (line ∈ linesThrough e.size ·) ≤ 1 := by
  refine countP_le_one (placement.peaceful.imp fun apart both => apart ?_)
  obtain ⟨first, second⟩ := both
  exact aligned_iff.2 ⟨line, of_decide_eq_true first, of_decide_eq_true second⟩

/-- Every line that must hold a queen holds one. -/
theorem countP_primary (mem : line ∈ primaryLines e.size) :
    squares.countP (line ∈ linesThrough e.size ·) = 1 := by
  rcases List.mem_append.1 mem with mem | mem
  · obtain ⟨i, hi, rfl⟩ := List.mem_map.1 mem
    rw [countP_row, placement.rows_perm.count_eq]
    exact List.count_eq_one_of_mem (nodup_oneTo e.size) hi
  · obtain ⟨i, hi, rfl⟩ := List.mem_map.1 mem
    rw [countP_column, placement.columns_perm.count_eq]
    exact List.count_eq_one_of_mem (nodup_oneTo e.size) hi

/-- The squares of a placement are open. -/
theorem mem_openSquares (given : ∀ q ∈ e.queens, q.OnBoard e.size) {s : Square} (hs : s ∈ squares) :
    s ∈ e.openSquares :=
  (Encoding.mem_openSquares given).2 ⟨placement.onBoard s hs, fun q hq =>
    placement.eq_of_aligned (placement.keeps q hq) hs⟩

/-- A placement is a selection of open squares that fits the lines. -/
theorem fits (given : ∀ q ∈ e.queens, q.OnBoard e.size) :
    Fits e.openSquares e.uses e.primaryNames e.secondaryNames squares where
  distinct := placement.nodup
  available := fun s => placement.mem_openSquares given
  useful := by
    intro s hs
    have through : .row s.row ∈ linesThrough e.size s := List.mem_cons_self
    have row : .row s.row ∈ primaryLines e.size :=
      List.mem_append_left _ (List.mem_map_of_mem (placement.onBoard s hs).row_mem)
    exact ⟨_, List.mem_map_of_mem row, List.mem_map_of_mem through⟩
  primary := by
    intro name mem
    obtain ⟨line, hline, rfl⟩ := List.mem_map.1 mem
    rw [countP_uses placement.onBoard (mem_lines.1 (List.mem_append_left _ hline))]
    exact placement.countP_primary hline
  secondary := by
    intro name mem
    obtain ⟨line, hline, rfl⟩ := List.mem_map.1 mem
    rw [countP_uses placement.onBoard (mem_lines.1 (List.mem_append_right _ hline))]
    exact placement.countP_linesThrough_le_one line

end Placement

/-- The selections of open squares that fit the lines of a board are the placements. -/
theorem fits_iff_placement (given : ∀ q ∈ e.queens, q.OnBoard e.size) :
    Fits e.openSquares e.uses e.primaryNames e.secondaryNames squares ↔ e.Placement squares :=
  ⟨placement_of_fits given, fun placement => placement.fits given⟩

end Encoding

end DancingLinks.Queens
