/-!
# Repeated elements

`firstRepeated` finds the first element of a list that stands earlier in it; there is none exactly
when the elements are pairwise distinct (`firstRepeated_eq_none_iff`).
-/

namespace DancingLinks

variable {α : Type} [DecidableEq α]

/-- The first element that stands earlier in the list or in `seen`. -/
def firstRepeatedAfter (seen : List α) : List α → Option α
  | [] => none
  | x :: xs => if x ∈ seen then some x else firstRepeatedAfter (x :: seen) xs

/-- The first element that stands earlier in the list. -/
def firstRepeated (xs : List α) : Option α := firstRepeatedAfter [] xs

theorem firstRepeatedAfter_eq_none_iff {seen xs : List α} :
    firstRepeatedAfter seen xs = none ↔ xs.Nodup ∧ ∀ x ∈ xs, x ∉ seen := by
  induction xs generalizing seen with
  | nil => simp [firstRepeatedAfter]
  | cons x xs ih =>
    unfold firstRepeatedAfter
    split
    · next h => simp [h]
    · next h =>
      rw [ih]
      simp only [List.nodup_cons, List.mem_cons, not_or, forall_eq_or_imp]
      grind

/-- No element is repeated when the elements are pairwise distinct. -/
theorem firstRepeated_eq_none_iff {xs : List α} : firstRepeated xs = none ↔ xs.Nodup := by
  simp [firstRepeated, firstRepeatedAfter_eq_none_iff]

/-- A repeated element is an element. -/
theorem mem_of_firstRepeatedAfter {seen xs : List α} {x : α}
    (h : firstRepeatedAfter seen xs = some x) : x ∈ xs := by
  induction xs generalizing seen with
  | nil => simp [firstRepeatedAfter] at h
  | cons y ys ih =>
    unfold firstRepeatedAfter at h
    split at h
    · simp [Option.some.inj h]
    · exact List.mem_cons_of_mem _ (ih h)

end DancingLinks
