import DancingLinks.Matrix.History
import DancingLinks.Proofs.Mesh.Shows
import DancingLinks.Proofs.Outcome

/-!
# Covering and uncovering a column

`Matrix.Stands` says that a matrix stands for a problem some of whose columns are covered. From there
every column that is left can be covered (`Stands.coverPlan_eq`, `Stands.hide`), and the column that
was covered last can be uncovered, which restores the matrix (`Stands.reveal_hide`). Only a column
that is left can be covered (`Stands.of_cover`).

So a matrix whose uncovers undo the latest cover still in force stands for the problem with the
columns covered that are (`Nested.stands`).
-/

namespace DancingLinks.Matrix

variable {m m' : Matrix} {p : Problem Nat} {covered : List Nat} {c x : Nat}

/-! ## Matrices that are linked alike -/

/-- The same mesh and the same columns. -/
structure Alike (m m' : Matrix) : Prop where
  mesh : m.mesh.Alike m'.mesh
  primary : m.primary = m'.primary
  secondary : m.secondary = m'.secondary

theorem Alike.refl (m : Matrix) : m.Alike m := ⟨.refl _, rfl, rfl⟩

theorem Alike.symm (h : m.Alike m') : m'.Alike m :=
  ⟨h.mesh.symm, h.primary.symm, h.secondary.symm⟩

theorem Alike.trans {m'' : Matrix} (h : m.Alike m') (h' : m'.Alike m'') : m.Alike m'' :=
  ⟨h.mesh.trans h'.mesh, h.primary.trans h'.primary, h.secondary.trans h'.secondary⟩

theorem Alike.reveal (h : m.Alike m') (c : Nat) (nodes : List Nat) :
    (m.reveal c nodes).Alike (m'.reveal c nodes) :=
  ⟨h.mesh.reveal c nodes, h.primary, h.secondary⟩

/-! ## Columns -/

/-- The columns of a problem are the headers of the matrix's columns, which bear the columns' names.
-/
structure Named (m : Matrix) (p : Problem Nat) : Prop where
  primary : p.primary = List.range' firstColumn m.primary.length
  secondary : p.secondary = List.range' (firstColumn + m.primary.length) m.secondary.length
  primaryNames : p.primary.map m.mesh.labelText = m.primary
  secondaryNames : p.secondary.map m.mesh.labelText = m.secondary

/-- Column headers are told by their numbers. -/
theorem Named.isColumn_iff (named : m.Named p) : m.isColumn x = true ↔ x ∈ p.columns := by
  simp only [Problem.columns, named.primary, named.secondary, List.mem_append, List.mem_range'_1,
    isColumn, Bool.and_eq_true, decide_eq_true_eq]
  omega

/-- Only column headers can be asked whether they are covered, -/
theorem isColumn_of_isCovered {answer : Bool} (answered : m.isCovered c = .ok answer) :
    m.isColumn c = true := by
  obtain ⟨_, checked, -⟩ := ok_of_bind answered
  by_contra other
  simp [checkColumn, other] at checked

/-- be covered, -/
theorem isColumn_of_coverPlan {nodes : List Nat} (plan : m.coverPlan c = .ok nodes) :
    m.isColumn c = true :=
  have ⟨_, answered, _⟩ := ok_of_bind plan
  isColumn_of_isCovered answered

/-- and be uncovered. -/
theorem isColumn_of_uncoverPlan {nodes : List Nat} (plan : m.uncoverPlan c = .ok nodes) :
    m.isColumn c = true :=
  have ⟨_, answered, _⟩ := ok_of_bind plan
  isColumn_of_isCovered answered

/-! ## What a matrix stands for -/

/-- The matrix stands for a problem some of whose columns are covered, the latest first. -/
structure Stands (m : Matrix) (p : Problem Nat) (covered : List Nat) : Prop where
  shows : m.mesh.Shows p covered
  primary : p.primary = List.range' firstColumn m.primary.length
  secondary : p.secondary = List.range' (firstColumn + m.primary.length) m.secondary.length
  primaryNames : p.primary.map m.mesh.labelText = m.primary
  secondaryNames : p.secondary.map m.mesh.labelText = m.secondary
  rootLabel : m.mesh.labelText primaryRoot = primaryRootLabel

theorem Stands.congr (stands : m.Stands p covered) (alike : m.Alike m') : m'.Stands p covered :=
  ⟨stands.shows.congr alike.mesh, by rw [← alike.primary]; exact stands.primary,
    by rw [← alike.primary, ← alike.secondary]; exact stands.secondary,
    by rw [← alike.mesh.labelText, ← alike.primary]; exact stands.primaryNames,
    by rw [← alike.mesh.labelText, ← alike.secondary]; exact stands.secondaryNames,
    by rw [← alike.mesh.labelText]; exact stands.rootLabel⟩

theorem Stands.named (stands : m.Stands p covered) : m.Named p :=
  ⟨stands.primary, stands.secondary, stands.primaryNames, stands.secondaryNames⟩

/-- A column is covered when it is among those that were covered. -/
theorem Stands.isCovered_eq (stands : m.Stands p covered) (mem : c ∈ p.columns) :
    m.isCovered c = .ok (decide (c ∈ covered)) := by
  have column : m.isColumn c = true := stands.named.isColumn_iff.2 mem
  have hidden : m.isHidden c = decide (c ∈ covered) := by
    rw [Bool.eq_iff_iff, decide_eq_true_eq, isHidden, bne_iff_ne]
    exact stands.shows.hidden_iff mem
  simp [isCovered, checkColumn, column, hidden, bind, Except.bind, pure, Except.pure]

/-- Walking along a column, and across it from the node of every row that is met. -/
theorem rowMates_eq {along across : Direction} {rows : List (Choice Nat)}
    {mates : Choice Nat → List Nat} (column : m.mesh.nodesAfter along c = some (rows.map (·.node c)))
    (row : ∀ r ∈ rows, m.mesh.nodesAfter across (r.node c) = some (mates r)) :
    m.rowMates along across c = .ok (rows.flatMap mates) := by
  have walks : (rows.map (·.node c)).mapM (m.nodesAfter across) = .ok (rows.map mates) := by
    rw [List.mapM_map]
    exact mapM_ok fun r mem => by simp [nodesAfter, row r mem]
  have start : m.nodesAfter along c = .ok (rows.map (·.node c)) := by simp [nodesAfter, column]
  simp only [rowMates, start, bind, Except.bind, walks, pure, Except.pure, List.flatMap_def]

/-- The rows with an entry in a column, as the choices that use it. -/
theorem Stands.holdsRow (stands : m.Stands p covered) {held : List Nat} {r : Choice Nat}
    (mem : r ∈ (p.without held).choices.filter (c ∈ ·.columns)) :
    m.mesh.HoldsRow p.columns r ∧ c ∈ r.columns := by
  simp only [List.mem_filter, decide_eq_true_eq] at mem
  exact ⟨stands.shows.holds.rows r (Problem.mem_choices_without.1 mem.1).1, mem.2⟩

/-- What covering takes out is what is met from the entries of the column. -/
theorem Stands.coverPlan_eq (stands : m.Stands p covered) (mem : c ∈ p.columns)
    (free : c ∉ covered) : m.coverPlan c = .ok ((p.without covered).mates c) := by
  have column := stands.shows.columns c mem
  rw [Problem.held_of_not_mem free] at column
  have mates := rowMates_eq column.nodesAfter_down fun r hr =>
    (stands.holdsRow hr).1.nodesAfter_right (stands.holdsRow hr).2
  rw [coverPlan, stands.isCovered_eq mem, decide_eq_false free]
  exact mates

/-- What uncovering a covered column puts back is what covering it took out, in reverse. -/
theorem Stands.uncoverPlan_of_mem (stands : m.Stands p covered) (mem : c ∈ covered) :
    m.uncoverPlan c = .ok ((p.without (Problem.held covered c)).mates c).reverse := by
  have declared := stands.shows.covered_mem c mem
  have up := (stands.shows.columns c declared).nodesAfter_up
  rw [Problem.entries, ← List.map_reverse] at up
  have mates := rowMates_eq up fun r hr =>
    (stands.holdsRow (List.mem_reverse.1 hr)).1.nodesAfter_left
      (stands.holdsRow (List.mem_reverse.1 hr)).2
  rw [uncoverPlan, stands.isCovered_eq declared, decide_eq_true mem]
  rw [Problem.mates, List.reverse_flatMap]
  exact mates

/-- The column covered last was covered when the others were. -/
theorem Stands.uncoverPlan_eq (stands : m.Stands p (c :: covered)) :
    m.uncoverPlan c = .ok ((p.without covered).mates c).reverse := by
  rw [stands.uncoverPlan_of_mem List.mem_cons_self, Problem.held_cons_self]

/-- Covering a column leaves a matrix that stands for the problem with that column covered too. -/
theorem Stands.hide (stands : m.Stands p covered) (mem : c ∈ p.columns) (free : c ∉ covered) :
    (m.hide c ((p.without covered).mates c)).Stands p (c :: covered) :=
  ⟨stands.shows.hide mem free, stands.primary, stands.secondary,
    (congrArg (List.map · _) (Mesh.labelText_hide ..)).trans stands.primaryNames,
    (congrArg (List.map · _) (Mesh.labelText_hide ..)).trans stands.secondaryNames,
    (congrFun (Mesh.labelText_hide ..) _).trans stands.rootLabel⟩

/-- Putting back what was taken out last restores the matrix. -/
theorem Stands.reveal_hide (stands : m.Stands p covered) (mem : c ∈ p.columns) (free : c ∉ covered) :
    ((m.hide c ((p.without covered).mates c)).reveal c
      ((p.without covered).mates c).reverse).Alike m :=
  ⟨stands.shows.reveal_hide mem free, rfl, rfl⟩

/-- Only a column that is not covered can be covered. -/
theorem Stands.of_cover (stands : m.Stands p covered) (done : m.cover c = .ok m') :
    c ∈ p.columns ∧ c ∉ covered ∧ m' = m.hide c ((p.without covered).mates c) := by
  obtain ⟨nodes, plan, made⟩ := ok_of_bind done
  obtain ⟨isCovered, answer, plan'⟩ := ok_of_bind plan
  have mem : c ∈ p.columns := stands.named.isColumn_iff.1 (isColumn_of_isCovered answer)
  have free : c ∉ covered := by
    intro there
    rw [stands.isCovered_eq mem, decide_eq_true there] at answer
    cases answer
    cases plan'
  rw [stands.coverPlan_eq mem free] at plan
  cases plan
  cases made
  exact ⟨mem, free, rfl⟩

/-- Uncovering the column that was covered last puts back what was taken out. -/
theorem Stands.of_uncover (stands : m.Stands p (c :: covered)) (done : m.uncover c = .ok m') :
    m' = m.reveal c ((p.without covered).mates c).reverse := by
  rw [uncover, stands.uncoverPlan_eq] at done
  cases done
  rfl

/-! ## Nested covers -/

/-- What putting the covered columns back, the latest first, does: it goes through matrices that
stand for the problem with ever fewer columns covered, and ends at a matrix linked like the one from
which the covers started. -/
def Unwinds (start : Matrix) (p : Problem Nat) (base : List Nat) : List Nat → Matrix → Prop
  | [], m => m.Alike start
  | c :: covered, m => m.Stands p (c :: covered ++ base) ∧
      Unwinds start p base covered (m.reveal c ((p.without (covered ++ base)).mates c).reverse)

variable {start : Matrix} {base : List Nat}

theorem Unwinds.congr (h : Unwinds start p base covered m) (alike : m.Alike m') :
    Unwinds start p base covered m' := by
  induction covered generalizing m m' with
  | nil => exact alike.symm.trans h
  | cons c covered ih => exact ⟨h.1.congr alike, ih h.2 (alike.reveal c _)⟩

theorem Unwinds.stands (h : Unwinds start p base covered m) (initial : start.Stands p base) :
    m.Stands p (covered ++ base) := by
  cases covered with
  | nil => exact initial.congr h.symm
  | cons c covered => exact h.1

/-- Uncovers that undo the latest cover still in force leave what is covered to be undone. -/
theorem Nested.unwinds (nested : Nested start covered m) (initial : start.Stands p base) :
    Unwinds start p base covered m := by
  induction nested with
  | start => exact .refl start
  | cover _ done ih =>
    have stands := ih.stands initial
    obtain ⟨mem, free, rfl⟩ := stands.of_cover done
    exact ⟨stands.hide mem free, ih.congr (stands.reveal_hide mem free).symm⟩
  | uncover _ done ih =>
    rw [ih.1.of_uncover done]
    exact ih.2

/-- A matrix with nested covers stands for the problem with the columns covered that are. -/
theorem Nested.stands (nested : Nested start covered m) (initial : start.Stands p base) :
    m.Stands p (covered ++ base) :=
  (nested.unwinds initial).stands initial

end DancingLinks.Matrix
