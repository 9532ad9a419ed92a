/-!
# Exact cover problems

The problem behind a matrix, without links: columns, and choices that each use some of them. A cover
is a selection of choices that uses every primary column exactly once and every secondary column at
most once. Choices that use no primary column never help, so a cover has none of them.

Choices are told apart by their numbers, since two of them may share their name and their columns.
-/

namespace DancingLinks

/-- A choice with its name and the columns that it uses, in order. -/
structure Choice (κ : Type) where
  number : Nat
  name : String
  columns : List κ
  deriving DecidableEq, Repr, Inhabited

/-- Columns to be covered, and the choices there are. -/
structure Problem (κ : Type) where
  primary : List κ
  secondary : List κ
  choices : List (Choice κ)
  deriving DecidableEq, Repr, Inhabited

namespace Problem

variable {κ : Type} [DecidableEq κ]

/-- How many of some choices use a column. -/
def uses (chosen : List (Choice κ)) (c : κ) : Nat := chosen.countP (c ∈ ·.columns)

/-- Some choices of the problem are a cover. -/
structure IsCover (p : Problem κ) (chosen : List (Choice κ)) : Prop where
  /-- They are choices of the problem, none of them taken twice. -/
  distinct : chosen.Nodup
  available : ∀ r ∈ chosen, r ∈ p.choices
  /-- Each of them covers something that has to be covered. -/
  useful : ∀ r ∈ chosen, ∃ c ∈ p.primary, c ∈ r.columns
  primary : ∀ c ∈ p.primary, uses chosen c = 1
  secondary : ∀ c ∈ p.secondary, uses chosen c ≤ 1

instance (p : Problem κ) (chosen : List (Choice κ)) : Decidable (p.IsCover chosen) :=
  decidable_of_iff
    (chosen.Nodup ∧ (∀ r ∈ chosen, r ∈ p.choices) ∧
      (∀ r ∈ chosen, ∃ c ∈ p.primary, c ∈ r.columns) ∧
      (∀ c ∈ p.primary, uses chosen c = 1) ∧ ∀ c ∈ p.secondary, uses chosen c ≤ 1)
    ⟨fun ⟨distinct, available, useful, primary, secondary⟩ =>
        ⟨distinct, available, useful, primary, secondary⟩,
      fun ⟨distinct, available, useful, primary, secondary⟩ =>
        ⟨distinct, available, useful, primary, secondary⟩⟩

/-- The problem that is left when some columns are covered: they are gone, and so are the choices
that use one of them. -/
def without (p : Problem κ) (covered : List κ) : Problem κ where
  primary := p.primary.filter (· ∉ covered)
  secondary := p.secondary.filter (· ∉ covered)
  choices := p.choices.filter fun r => r.columns.all (· ∉ covered)

@[simp] theorem mem_primary_without {p : Problem κ} {covered : List κ} {c : κ} :
    c ∈ (p.without covered).primary ↔ c ∈ p.primary ∧ c ∉ covered := by
  simp [without]

@[simp] theorem mem_secondary_without {p : Problem κ} {covered : List κ} {c : κ} :
    c ∈ (p.without covered).secondary ↔ c ∈ p.secondary ∧ c ∉ covered := by
  simp [without]

@[simp] theorem mem_choices_without {p : Problem κ} {covered : List κ} {r : Choice κ} :
    r ∈ (p.without covered).choices ↔ r ∈ p.choices ∧ ∀ c ∈ r.columns, c ∉ covered := by
  simp [without]

/-- What is left depends only on which columns are covered. -/
theorem without_congr (p : Problem κ) {xs ys : List κ} (same : ∀ c, c ∈ xs ↔ c ∈ ys) :
    p.without xs = p.without ys := by
  simp [without, same]

/-- Covering nothing leaves the problem as it is. -/
theorem without_nil (p : Problem κ) : p.without [] = p := by
  cases p
  simp only [without, mk.injEq]
  exact ⟨List.filter_eq_self.2 (by simp), List.filter_eq_self.2 (by simp),
    List.filter_eq_self.2 (by simp)⟩

/-- Columns may be covered in two steps. -/
theorem without_append (p : Problem κ) (xs ys : List κ) :
    p.without (xs ++ ys) = (p.without xs).without ys := by
  simp only [without, List.filter_filter, mk.injEq]
  refine ⟨List.filter_congr fun c _ => ?_, List.filter_congr fun c _ => ?_,
    List.filter_congr fun r _ => ?_⟩
  · simp [Bool.and_comm]
  · simp [Bool.and_comm]
  · rw [Bool.eq_iff_iff]
    simp only [List.all_eq_true, decide_eq_true_eq, List.mem_append, not_or, Bool.and_eq_true]
    grind

/-- The order in which columns are covered does not matter. -/
theorem without_comm (p : Problem κ) (xs ys : List κ) :
    (p.without xs).without ys = (p.without ys).without xs := by
  rw [← without_append, ← without_append]
  exact p.without_congr (by simp [or_comm])

end Problem

end DancingLinks
