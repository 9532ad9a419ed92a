/-!
# Sorted lists

`sorted` sorts a list by insertion and keeps equal elements in their order; `distinctSorted` lists
each element once. Insertion is structural and costs little on lists that are nearly sorted, which
is what the encodings produce. The main facts: sorting permutes (`sorted_perm`) and
sorts (`pairwise_sorted`), and a list of distinct elements strictly increases
(`pairwise_distinctSorted`).
-/

namespace DancingLinks

variable {α : Type} [LT α] [DecidableLT α]

/-- Puts `x` before the first element that is not less. -/
def insertSorted (x : α) : List α → List α
  | [] => [x]
  | y :: ys => if y < x then y :: insertSorted x ys else x :: y :: ys

/-- The elements in increasing order, equal ones in their old order. -/
def sorted (xs : List α) : List α := xs.foldr insertSorted []

/-- Puts `x` before the first element that is greater, unless an equal one stands there. -/
def insertNew (x : α) : List α → List α
  | [] => [x]
  | y :: ys =>
    if x < y then x :: y :: ys
    else if y < x then y :: insertNew x ys
    else y :: ys

/-- The elements in increasing order, each once. -/
def distinctSorted (xs : List α) : List α := xs.foldr insertNew []

theorem insertSorted_perm (x : α) (xs : List α) : (insertSorted x xs).Perm (x :: xs) := by
  induction xs with
  | nil => rfl
  | cons y ys ih =>
    unfold insertSorted
    split
    · exact (ih.cons y).trans (.swap x y ys)
    · rfl

/-- Sorting permutes. -/
theorem sorted_perm (xs : List α) : (sorted xs).Perm xs := by
  induction xs with
  | nil => rfl
  | cons x xs ih => exact (insertSorted_perm x _).trans (ih.cons x)

theorem mem_sorted {x : α} {xs : List α} : x ∈ sorted xs ↔ x ∈ xs := (sorted_perm xs).mem_iff

theorem length_sorted (xs : List α) : (sorted xs).length = xs.length := (sorted_perm xs).length_eq

/-- A sorted list does not decrease, if "not less" is transitive. -/
theorem pairwise_sorted (asymm : ∀ a b : α, a < b → ¬ b < a)
    (trans : ∀ a b c : α, ¬ b < a → ¬ c < b → ¬ c < a) (xs : List α) :
    (sorted xs).Pairwise fun a b => ¬ b < a := by
  induction xs with
  | nil => exact .nil
  | cons x xs ih =>
    show (insertSorted x (sorted xs)).Pairwise fun a b => ¬ b < a
    generalize sorted xs = ys at ih
    induction ys with
    | nil => simp [insertSorted]
    | cons y ys inner =>
      obtain ⟨first, rest⟩ := List.pairwise_cons.1 ih
      unfold insertSorted
      split
      · next less =>
        refine List.pairwise_cons.2 ⟨fun z mem => ?_, inner rest⟩
        rcases List.mem_cons.1 ((insertSorted_perm x ys).mem_iff.1 mem) with rfl | mem
        · exact asymm _ _ less
        · exact first z mem
      · next notLess =>
        refine List.pairwise_cons.2 ⟨fun z mem => ?_, ih⟩
        rcases List.mem_cons.1 mem with rfl | mem
        · exact notLess
        · exact trans _ _ _ notLess (first z mem)

/-- What is inserted, and what was there. -/
theorem mem_insertNew (connected : ∀ a b : α, ¬ a < b → ¬ b < a → a = b) {x z : α} {xs : List α} :
    z ∈ insertNew x xs ↔ z = x ∨ z ∈ xs := by
  induction xs with
  | nil => simp [insertNew]
  | cons y ys ih =>
    unfold insertNew
    split
    · simp
    · next notLess =>
      split
      · simp only [List.mem_cons, ih]; grind
      · next notGreater => have := connected x y notLess notGreater; simp [this]

/-- A list of distinct elements holds what the list held. -/
theorem mem_distinctSorted (connected : ∀ a b : α, ¬ a < b → ¬ b < a → a = b) {z : α}
    {xs : List α} : z ∈ distinctSorted xs ↔ z ∈ xs := by
  induction xs with
  | nil => simp [distinctSorted]
  | cons x xs ih =>
    show z ∈ insertNew x (distinctSorted xs) ↔ _
    rw [mem_insertNew connected, ih, List.mem_cons]

/-- Insertion keeps a list strictly increasing. -/
theorem pairwise_insertNew (trans : ∀ a b c : α, a < b → b < c → a < c)
    (connected : ∀ a b : α, ¬ a < b → ¬ b < a → a = b) {x : α} {xs : List α}
    (increasing : xs.Pairwise (· < ·)) : (insertNew x xs).Pairwise (· < ·) := by
  induction xs with
  | nil => simp [insertNew]
  | cons y ys ih =>
    obtain ⟨first, rest⟩ := List.pairwise_cons.1 increasing
    unfold insertNew
    split
    · next less =>
      refine List.pairwise_cons.2 ⟨fun z mem => ?_, increasing⟩
      rcases List.mem_cons.1 mem with rfl | mem
      · exact less
      · exact trans _ _ _ less (first z mem)
    · split
      · next greater =>
        refine List.pairwise_cons.2 ⟨fun z mem => ?_, ih rest⟩
        rcases (mem_insertNew connected).1 mem with rfl | mem
        · exact greater
        · exact first z mem
      · exact increasing

/-- A list of distinct elements strictly increases. -/
theorem pairwise_distinctSorted (trans : ∀ a b c : α, a < b → b < c → a < c)
    (connected : ∀ a b : α, ¬ a < b → ¬ b < a → a = b) (xs : List α) :
    (distinctSorted xs).Pairwise (· < ·) := by
  induction xs with
  | nil => exact .nil
  | cons x xs ih => exact pairwise_insertNew trans connected ih

end DancingLinks
