import DancingLinks.Sudoku.Rules

/-!
# Boxes

On a board whose size is a perfect square, the boxes have the integer square root as their side
(`isqrt_of_mul_self`). A square lies in the area of a box exactly when it has the number of that box
(`boxNumber_eq_iff`), and the boxes are numbered from one to the size of the board.
-/

namespace DancingLinks

/-! ## Roots -/

/-- The root of a perfect square is its integer square root. -/
theorem isqrt_of_mul_self {r n : Nat} (root : r * r = n) : isqrt n = r := by
  obtain ⟨low, high⟩ := isqrt_spec n
  have notGreater : isqrt n ≤ r := Nat.mul_self_le_mul_self_iff.1 (root ▸ low)
  have notLess : r < isqrt n + 1 := Nat.mul_self_lt_mul_self_iff.1 (root ▸ high)
  omega

/-- An integer is the square of its integer square root when it is a square at all. -/
theorem isqrt_mul_self_iff {n : Int} (nonneg : 0 ≤ n) :
    (isqrt n.toNat * isqrt n.toNat == n.toNat) = true ↔
      (isqrt n.toNat : Int) * isqrt n.toNat = n := by
  obtain ⟨k, rfl⟩ := Int.eq_ofNat_of_zero_le nonneg
  rw [Int.toNat_natCast, beq_iff_eq]
  exact_mod_cast Iff.rfl

theorem isqrt_pos {n : Nat} (pos : 0 < n) : 0 < isqrt n := by
  obtain ⟨-, high⟩ := isqrt_spec n
  cases root : isqrt n with
  | zero =>
    rw [root] at high
    omega
  | succ r => exact Nat.succ_pos r

namespace Sudoku

variable {side down across i : Int} {s t : Square}

/-! ## Numbers of boxes -/

/-- Numbers below `side` are the remainders of their sums with multiples of `side`. -/
theorem mul_add_eq_iff {q r p k : Int} (hr : 0 ≤ r ∧ r < side) (hk : 0 ≤ k ∧ k < side) :
    q * side + r = p * side + k ↔ q = p ∧ r = k := by
  have quotient : ∀ {q r : Int}, 0 ≤ r ∧ r < side → (q * side + r) / side = q := by
    intro q r bounds
    rw [Int.add_comm, Int.add_mul_ediv_right _ _ (by omega), Int.ediv_eq_zero_of_lt bounds.1 bounds.2,
      Int.zero_add]
  constructor
  · intro same
    have quotients : q = p := by rw [← quotient (q := q) hr, same, quotient hk]
    subst quotients
    exact ⟨rfl, Int.add_left_cancel same⟩
  · rintro ⟨rfl, rfl⟩
    rfl

/-- The boxes to the left of a square on the board are less than `side`. -/
theorem ediv_bounds (pos : 1 ≤ side) (low : 1 ≤ i) (high : i ≤ side * side) :
    0 ≤ (i - 1) / side ∧ (i - 1) / side < side :=
  ⟨Int.ediv_nonneg (by omega) (by omega), Int.ediv_lt_of_lt_mul (by omega) (by omega)⟩

/-- A square on the board has the number of a box when it lies in its area. -/
theorem boxNumber_eq_iff (pos : 1 ≤ side) (onBoard : s.OnBoard (side * side))
    (inside : across ∈ oneTo side) :
    boxNumber side s = (down - 1) * side + across ↔ Board.boxArea side down across s = true := by
  obtain ⟨-, -, low, high⟩ := onBoard
  have column := ediv_bounds pos low high
  have inside := mem_oneTo.1 inside
  have split := mul_add_eq_iff (q := (s.row - 1) / side) (p := down - 1) column
    ⟨show 0 ≤ across - 1 by omega, by omega⟩
  simp only [boxNumber, Board.boxArea, Bool.and_eq_true, beq_iff_eq]
  rw [← split]
  omega

/-- Squares on the board have the number of one box when there are as many boxes above the one as above
the other, and as many to its left. -/
theorem boxNumber_eq_boxNumber_iff (pos : 1 ≤ side) (hs : s.OnBoard (side * side))
    (ht : t.OnBoard (side * side)) :
    boxNumber side s = boxNumber side t ↔
      (s.row - 1) / side = (t.row - 1) / side ∧ (s.column - 1) / side = (t.column - 1) / side := by
  obtain ⟨-, -, left, right⟩ := hs
  obtain ⟨-, -, left', right'⟩ := ht
  rw [← mul_add_eq_iff (ediv_bounds pos left right) (ediv_bounds pos left' right')]
  simp only [boxNumber]
  omega

/-- The boxes are numbered from one to the size of the board. -/
theorem number_mem (pos : 1 ≤ side) (hd : down ∈ oneTo side) (ha : across ∈ oneTo side) :
    (down - 1) * side + across ∈ oneTo (side * side) := by
  have down_bounds := mem_oneTo.1 hd
  have across_bounds := mem_oneTo.1 ha
  have least : 0 ≤ (down - 1) * side := Int.mul_nonneg (by omega) (by omega)
  have greatest : (down - 1) * side ≤ (side - 1) * side :=
    Int.mul_le_mul_of_nonneg_right (by omega) (by omega)
  rw [Int.sub_mul side, Int.one_mul] at greatest
  rw [mem_oneTo]
  omega

/-- The squares of the board have the numbers of its boxes. -/
theorem boxNumber_mem (pos : 1 ≤ side) (onBoard : s.OnBoard (side * side)) :
    boxNumber side s ∈ oneTo (side * side) := by
  obtain ⟨top, bottom, left, right⟩ := onBoard
  have row := ediv_bounds pos top bottom
  have column := ediv_bounds pos left right
  have number : ((s.row - 1) / side + 1 - 1) * side + ((s.column - 1) / side + 1)
      ∈ oneTo (side * side) := number_mem pos (mem_oneTo.2 (by omega)) (mem_oneTo.2 (by omega))
  rwa [Int.add_sub_cancel, ← Int.add_assoc] at number

/-- Every number is that of a box. -/
theorem exists_box (pos : 1 ≤ side) (mem : i ∈ oneTo (side * side)) :
    ∃ down ∈ oneTo side, ∃ across ∈ oneTo side, i = (down - 1) * side + across := by
  have bounds := mem_oneTo.1 mem
  have down := ediv_bounds pos bounds.1 bounds.2
  have across := Int.emod_nonneg (i - 1) (show side ≠ 0 by omega)
  have below := Int.emod_lt_of_pos (i - 1) (show 0 < side by omega)
  refine ⟨(i - 1) / side + 1, mem_oneTo.2 (by omega), (i - 1) % side + 1, mem_oneTo.2 (by omega), ?_⟩
  have division := Int.mul_ediv_add_emod (i - 1) side
  rw [Int.mul_comm] at division
  rw [Int.add_sub_cancel]
  omega

end Sudoku

end DancingLinks
