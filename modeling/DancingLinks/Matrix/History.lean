import DancingLinks.ExactCover
import DancingLinks.Matrix.Cover

/-!
# How a matrix came about

A matrix is built from its columns by adding rows (`Built`), which fixes the exact cover problem
that it stands for. Afterwards columns are covered and uncovered. As long as every uncover undoes
the latest cover still in force (`Nested`), the matrix stands for what the covered columns leave of
that problem.
-/

namespace DancingLinks.Matrix

/-- A matrix with all its columns uncovered, and the problem that it was built for. A choice has the
number of the row's header. -/
inductive Built : Matrix → Problem String → Prop
  /-- Without rows there is nothing to choose from. -/
  | ofColumns {primary secondary : List String} {m : Matrix} :
      ofColumns primary secondary = .ok m → Built m ⟨primary, secondary, []⟩
  /-- A row is one more choice. -/
  | addRow {m m' : Matrix} {p : Problem String} {name : String} {columns : List String} :
      Built m p → m.addRow name columns = .ok m' →
      Built m' { p with choices := p.choices ++ [⟨m.mesh.size, name, columns⟩] }

/-- A matrix reached by covers and uncovers, every uncover undoing the latest cover still in force.
The covers in force are given by the headers of their columns, the latest first. -/
inductive Nested (start : Matrix) : List Nat → Matrix → Prop
  /-- Nothing was done. -/
  | start : Nested start [] start
  /-- Any column may be covered that is not. -/
  | cover {covered : List Nat} {m m' : Matrix} {c : Nat} :
      Nested start covered m → m.cover c = .ok m' → Nested start (c :: covered) m'
  /-- Only the column covered last may be uncovered. -/
  | uncover {covered : List Nat} {m m' : Matrix} {c : Nat} :
      Nested start (c :: covered) m → m.uncover c = .ok m' → Nested start covered m'

/-- Covers and uncovers, and what they do to a matrix. -/
inductive Step
  | cover (column : Nat)
  | uncover (column : Nat)
  deriving DecidableEq, Repr

/-- The matrix after a step, which may be refused. -/
def step (m : Matrix) : Step → Except Fault Matrix
  | .cover c => m.cover c
  | .uncover c => m.uncover c

/-- The matrix after a step when a refused one is passed over. -/
def attempt (m : Matrix) (s : Step) : Matrix :=
  match m.step s with
  | .ok m' => m'
  | .error _ => m

/-- Steps keep the columns that were declared. -/
theorem columns_step {m m' : Matrix} {s : Step} (done : m.step s = .ok m') :
    m'.primary = m.primary ∧ m'.secondary = m.secondary := by
  cases s with
  | cover c =>
    cases plan : m.coverPlan c with
    | error fault => simp [step, cover, plan, bind, Except.bind] at done
    | ok nodes =>
      simp [step, cover, plan, bind, Except.bind, pure, Except.pure] at done
      simp [← done, hide]
  | uncover c =>
    cases plan : m.uncoverPlan c with
    | error fault => simp [step, uncover, plan, bind, Except.bind] at done
    | ok nodes =>
      simp [step, uncover, plan, bind, Except.bind, pure, Except.pure] at done
      simp [← done, reveal]

/-- A matrix has the columns of the problem that it was built for. -/
theorem Built.columns_eq {m : Matrix} {p : Problem String} (built : Built m p) :
    m.primary = p.primary ∧ m.secondary = p.secondary := by
  induction built with
  | ofColumns made =>
    unfold Matrix.ofColumns at made
    split at made
    · simp at made
    · simp [← Except.ok.inj made]
  | @addRow m m' p name columns _ added ih =>
    cases found : m.resolve name [] columns with
    | error fault => simp [Matrix.addRow, found, bind, Except.bind] at added
    | ok headers =>
      simp [Matrix.addRow, found, bind, Except.bind, pure, Except.pure] at added
      simp [← added, ih]

end DancingLinks.Matrix
