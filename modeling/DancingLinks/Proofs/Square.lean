import DancingLinks.Square
import Mathlib.Data.List.Nodup

/-!
# Squares in order

Sorting does nothing to a list that is in order (`sorted_eq_self`), and a list that strictly
increases is told by its elements (`eq_of_perm`). The squares of a board are listed in such an order
(`pairwise_allSquares`).
-/

namespace DancingLinks

section Sorted
variable {α : Type} [LT α] [DecidableLT α] {xs : List α}

/-- A list that does not decrease is sorted already. -/
theorem sorted_eq_self (ordered : xs.Pairwise fun a b => ¬b < a) : sorted xs = xs := by
  induction xs with
  | nil => rfl
  | cons x xs ih =>
    obtain ⟨first, rest⟩ := List.pairwise_cons.1 ordered
    show insertSorted x (sorted xs) = x :: xs
    rw [ih rest]
    cases xs with
    | nil => rfl
    | cons y ys => exact if_neg (first y List.mem_cons_self)

/-- Different elements, once sorted, strictly increase. -/
theorem pairwise_lt_sorted (asymm : ∀ a b : α, a < b → ¬b < a)
    (trans : ∀ a b c : α, ¬b < a → ¬c < b → ¬c < a)
    (connected : ∀ a b : α, ¬a < b → ¬b < a → a = b) (different : xs.Nodup) :
    (sorted xs).Pairwise (· < ·) := by
  have nodup : (sorted xs).Nodup := (sorted_perm xs).nodup_iff.2 different
  refine ((pairwise_sorted asymm trans xs).and nodup).imp fun {a b} ⟨notGreater, differ⟩ => ?_
  by_contra notLess
  exact differ (connected a b notLess notGreater)

end Sorted

/-- Lists that are in order, and hold the same elements, are equal. -/
theorem eq_of_perm {α : Type} {less : α → α → Prop} (asymm : ∀ a b, less a b → ¬less b a)
    {xs ys : List α} (hx : xs.Pairwise less) (hy : ys.Pairwise less) (same : xs.Perm ys) :
    xs = ys := by
  refine List.Perm.eq_of_pairwise ?_ hx hy same
  intro a b _ _ ab ba
  exact absurd ba (asymm a b ab)

/-- Lists that are strictly in order are told by what they hold. -/
theorem eq_of_mem_iff {α : Type} {less : α → α → Prop} (asymm : ∀ a b, less a b → ¬less b a)
    {xs ys : List α} (hx : xs.Pairwise less) (hy : ys.Pairwise less)
    (same : ∀ x, x ∈ xs ↔ x ∈ ys) : xs = ys := by
  have nodup {zs : List α} (ordered : zs.Pairwise less) : zs.Nodup := by
    refine ordered.imp fun {a b} ab => ?_
    rintro rfl
    exact asymm a a ab ab
  exact eq_of_perm asymm hx hy ((List.perm_ext_iff_of_nodup (nodup hx) (nodup hy)).2 same)

/-- Elements of a list without repetitions that occur once each, and nothing else, are that list in
some order. -/
theorem perm_of_count_eq_one {α : Type} [DecidableEq α] {xs ys : List α} (nodup : ys.Nodup)
    (within : ∀ x ∈ xs, x ∈ ys) (once : ∀ y ∈ ys, xs.count y = 1) : xs.Perm ys := by
  refine List.perm_iff_count.2 fun z => ?_
  by_cases mem : z ∈ ys
  · rw [once z mem, List.count_eq_one_of_mem nodup mem]
  · rw [List.count_eq_zero_of_not_mem mem, List.count_eq_zero_of_not_mem fun there => mem (within z there)]

theorem Square.lt_asymm (a b : Square) (ab : a < b) : ¬b < a := by
  intro ba
  exact lt_irrefl a (lt_trans a b a ab ba)

/-- Squares in strictly increasing order differ. -/
theorem Square.nodup_of_increasing {squares : List Square}
    (increasing : squares.Pairwise (· < ·)) : squares.Nodup := by
  refine increasing.imp fun {s t} less => ?_
  rintro rfl
  exact lt_irrefl s less

/-! ## The squares of a board -/

/-- The numbers of a square of the board are among those from one to the size. -/
theorem Square.OnBoard.row_mem {n : Int} {s : Square} (onBoard : s.OnBoard n) : s.row ∈ oneTo n :=
  mem_oneTo.2 ⟨onBoard.1, onBoard.2.1⟩

theorem Square.OnBoard.column_mem {n : Int} {s : Square} (onBoard : s.OnBoard n) :
    s.column ∈ oneTo n :=
  mem_oneTo.2 onBoard.2.2

theorem pairwise_oneTo (n : Int) : (oneTo n).Pairwise (· < ·) := by
  refine List.pairwise_map.2 (List.pairwise_lt_range.imp ?_)
  omega

theorem nodup_oneTo (n : Int) : (oneTo n).Nodup := (pairwise_oneTo n).imp fun less => by omega

theorem length_oneTo (n : Int) : (oneTo n).length = n.toNat := by
  rw [oneTo, List.length_map, List.length_range]

/-- The squares of a board are listed row by row. -/
theorem pairwise_allSquares (size : Int) : (allSquares size).Pairwise (· < ·) := by
  refine List.pairwise_flatMap.2 ⟨?_, (pairwise_oneTo size).imp ?_⟩
  · intro row _
    exact List.pairwise_map.2 ((pairwise_oneTo size).imp fun less => .inr ⟨rfl, less⟩)
  · intro row row' less s hs t ht
    obtain ⟨_, _, rfl⟩ := List.mem_map.1 hs
    obtain ⟨_, _, rfl⟩ := List.mem_map.1 ht
    exact .inl less

theorem nodup_allSquares (size : Int) : (allSquares size).Nodup :=
  Square.nodup_of_increasing (pairwise_allSquares size)

end DancingLinks
