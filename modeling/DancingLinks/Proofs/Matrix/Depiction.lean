import DancingLinks.Matrix.Printer
import DancingLinks.Proofs.Matrix.Names
import DancingLinks.Proofs.Matrix.Views
import DancingLinks.Proofs.Mesh.Visible

/-!
# The picture of a problem

What is seen of a matrix is a picture of the problem that the covered columns leave (`Depicts`): which
columns are covered, the columns and the rows that are left in the order in which they were made, the
entries of a column read either way with their number, links that agree with each other, and the table
that is printed. Nothing else shows. So two matrices that were built for the same problem look alike
when the same columns are covered, in whichever order that was done (`depicts_left`).
-/

namespace DancingLinks

open DancingLinks.Matrix (primaryRoot primaryRootLabel)

/-! ## The table of a problem -/

namespace Problem

variable {κ : Type} [DecidableEq κ]

/-- Which of some columns a choice uses, in zeros and ones. -/
def cells (columns : List κ) (r : Choice κ) : List String :=
  columns.map fun c => if c ∈ r.columns then "1" else "0"

/-- The table of a problem: a line with the names of its columns, and for each choice a line with its
name and its cells. -/
def table (q : Problem String) : String :=
  let header := " ".intercalate (primaryRootLabel :: q.columns)
  let rows := q.choices.map fun r => " ".intercalate (r.name :: cells q.columns r)
  "\n".intercalate (header :: rows) ++ "\n"

/-- The cells of a choice stay when the columns are renamed. -/
theorem cells_map {μ : Type} [DecidableEq μ] {p : Problem κ} {f : κ → μ} {r : Choice κ}
    (faithful : p.Faithful f) (declares : p.Declares) (hr : r ∈ p.choices) :
    cells (p.columns.map f) (r.map f) = cells p.columns r := by
  rw [cells, List.map_map]
  refine List.map_congr_left fun c hc => ?_
  exact if_congr (faithful.mem_map hc (declares r hr)) rfl rfl

end Problem

namespace Matrix

variable {m m' start start' : Matrix} {p : Problem Nat} {q : Problem String}
  {covered covered' : List Nat} {r : Choice Nat} {c : Nat}

/-! ## Views of what is left -/

/-- Only column headers can be asked whether they are covered. -/
theorem Stands.isCovered_iff (stands : m.Stands p covered) {answer : Bool} :
    m.isCovered c = .ok answer ↔ c ∈ p.columns ∧ decide (c ∈ covered) = answer := by
  by_cases mem : c ∈ p.columns
  · rw [stands.isCovered_eq mem, Except.ok.injEq]
    exact (and_iff_right mem).symm
  · have other : m.isColumn c = false := Bool.eq_false_iff.2 (mt stands.named.isColumn_iff.1 mem)
    simp [isCovered, checkColumn, other, mem, bind, Except.bind]

theorem Stands.uncoveredColumns_eq (stands : m.Stands p covered) :
    m.uncoveredColumns = .ok (p.without covered).columns := by
  simp only [uncoveredColumns, stands.primaryColumns_eq, stands.secondaryColumns_eq, bind,
    Except.bind, pure, Except.pure, Problem.columns]

theorem Stands.uncoveredRows_eq (stands : m.Stands p covered) :
    m.uncoveredRows = .ok ((p.without covered).choices.map Choice.number) := by
  rw [uncoveredRows, nodesAfter, stands.shows.rows.nodesAfter_down]

/-- The line of a row that is left. -/
theorem Stands.rowLine_eq (stands : m.Stands p covered) (hr : r ∈ p.choices) (columns : List Nat) :
    m.rowLine columns r.number
      = .ok (" ".intercalate (r.name :: Problem.cells columns r)) := by
  have row := stands.shows.holds.rows r hr
  have walk : m.nodesAfter .right r.number = .ok r.nodes := by
    rw [nodesAfter, Mesh.nodesAfter_right row.row.ring row.row.bound]
  have used : r.nodes.map m.mesh.columnHeader.get = r.columns := by
    rw [Choice.nodes, List.map_map]
    exact (List.map_congr_left row.entries).trans r.columns.map_id
  simp only [rowLine, walk, used, row.label, bind, Except.bind, pure, Except.pure, Problem.cells]

/-- The table that is printed is that of what is left. -/
theorem Stands.table_eq (stands : m.Stands p covered) :
    m.table = .ok ((p.without covered).map m.mesh.labelText).table := by
  have declares := stands.declares.without covered
  have faithful := stands.faithful.without covered
  have rows : ((p.without covered).choices.map Choice.number).mapM
      (m.rowLine (p.without covered).columns)
      = .ok ((p.without covered).choices.map fun r =>
        " ".intercalate (r.name :: Problem.cells (p.without covered).columns r)) := by
    rw [List.mapM_map]
    exact mapM_ok fun r hr =>
      stands.rowLine_eq (Problem.mem_choices_without.1 hr).1 (p.without covered).columns
  have lines : ((p.without covered).choices.map fun r =>
        " ".intercalate (r.name :: Problem.cells (p.without covered).columns r))
      = ((p.without covered).map m.mesh.labelText).choices.map fun r =>
        " ".intercalate
          (r.name :: Problem.cells ((p.without covered).map m.mesh.labelText).columns r) := by
    rw [Problem.columns_map, Problem.map, List.map_map]
    refine List.map_congr_left fun r hr => ?_
    rw [Function.comp_apply, Problem.cells_map faithful declares hr]
    rfl
  simp only [table, stands.uncoveredColumns_eq, stands.uncoveredRows_eq, rows, lines,
    stands.rootLabel, bind, Except.bind, pure, Except.pure, Problem.table, Problem.columns_map]

/-! ## The picture -/

/-- What is seen of a matrix is what some covered columns leave of a problem. -/
structure Depicts (m : Matrix) (q : Problem String) (covered : List Nat) : Prop where
  /-- The header of a column is found by the column's name, and bears it. -/
  header : ∀ name ∈ q.columns,
    m.column name = .ok (q.header name) ∧ m.mesh.labelText (q.header name) = name
  /-- The header of a row bears the name of the row. -/
  rowName : ∀ r ∈ q.choices, m.mesh.labelText r.number = r.name
  /-- The other nodes of a row know the row, and each its column. -/
  node : ∀ r ∈ q.numbered.choices, ∀ c ∈ r.columns,
    m.mesh.rowHeader.get (r.node c) = r.number ∧ m.mesh.columnHeader.get (r.node c) = c
  isCovered : ∀ c, m.isCovered c = .ok true ↔ c ∈ covered
  isLeft : ∀ c, m.isCovered c = .ok false ↔ c ∈ (q.numbered.without covered).columns
  primaryColumns : m.primaryColumns = .ok (q.numbered.without covered).primary
  secondaryColumns : m.secondaryColumns = .ok (q.numbered.without covered).secondary
  uncoveredRows : m.uncoveredRows
    = .ok ((q.numbered.without covered).choices.map Choice.number)
  rowCount : m.mesh.count primaryRoot = (q.numbered.without covered).choices.length
  /-- The entries of a column that is left, from top to bottom. -/
  down : ∀ c ∈ (q.numbered.without covered).columns,
    m.nodesAfter .down c = .ok ((q.numbered.without covered).entries c)
  up : ∀ c ∈ (q.numbered.without covered).columns,
    m.nodesAfter .up c = .ok ((q.numbered.without covered).entries c).reverse
  count : ∀ c ∈ (q.numbered.without covered).columns,
    m.mesh.count c = ((q.numbered.without covered).entries c).length
  /-- The links of a node that is seen lead back to it. -/
  linked : ∀ x ∈ (q.numbered.without covered).visible, ∀ d : Direction,
    m.mesh.neighbor d.opposite (m.mesh.neighbor d x) = x
  table : m.table = .ok (q.without (covered.map m.mesh.labelText)).table

/-- The same columns are covered, and what is left is linked, counted and printed alike. -/
structure LooksLike (m m' : Matrix) (left : Problem Nat) : Prop where
  isCovered : ∀ c answer, m.isCovered c = .ok answer ↔ m'.isCovered c = .ok answer
  primaryColumns : m.primaryColumns = m'.primaryColumns
  secondaryColumns : m.secondaryColumns = m'.secondaryColumns
  uncoveredRows : m.uncoveredRows = m'.uncoveredRows
  down : ∀ c ∈ left.columns, m.nodesAfter .down c = m'.nodesAfter .down c
  up : ∀ c ∈ left.columns, m.nodesAfter .up c = m'.nodesAfter .up c
  count : ∀ c ∈ primaryRoot :: left.columns, m.mesh.count c = m'.mesh.count c
  neighbor : ∀ x ∈ left.visible, ∀ d, m.mesh.neighbor d x = m'.mesh.neighbor d x
  table : m.table = m'.table

/-- A matrix that stands for a problem shows what is left of it. -/
theorem Stands.depicts (stands : m.Stands q.numbered covered)
    (names : q.numbered.map m.mesh.labelText = q) : m.Depicts q covered := by
  have strung := stands.shows.strung
  have columns : q.columns = m.primary ++ m.secondary := by
    rw [← stands.map_columns, ← Problem.columns_map, names]
  refine
    { header := fun name mem => ⟨?_, ?_⟩
      rowName := fun r hr => ?_
      node := fun r hr c hc => ?_
      isCovered := fun c => ?_
      isLeft := fun c => ?_
      primaryColumns := stands.primaryColumns_eq
      secondaryColumns := stands.secondaryColumns_eq
      uncoveredRows := stands.uncoveredRows_eq
      rowCount := ?_
      down := fun c hc => ?_
      up := fun c hc => ?_
      count := fun c hc => (strung.columns c hc).count
      linked := fun x seen d => strung.linked seen d
      table := ?_ }
  · rw [Problem.header, columns]
    exact column_eq (columns ▸ mem)
  · rw [← names, Problem.columns_map] at mem
    obtain ⟨c, hc, rfl⟩ := List.mem_map.1 mem
    have header := stands.header_labelText hc
    rw [names] at header
    rw [header]
  · have number : r.map q.header ∈ q.numbered.choices := List.mem_map_of_mem hr
    exact (stands.shows.holds.rows _ number).label
  · have row := stands.shows.holds.rows r hr
    exact ⟨row.rowHeader_node hc, row.entries c hc⟩
  · rw [stands.isCovered_iff, decide_eq_true_eq, and_iff_right_iff_imp]
    exact stands.shows.covered_mem c
  · rw [stands.isCovered_iff, decide_eq_false_iff_not, Problem.mem_columns_without]
  · rw [strung.numbers.count, List.length_map]
  · rw [nodesAfter, (strung.columns c hc).nodesAfter_down]
  · rw [nodesAfter, (strung.columns c hc).nodesAfter_up]
  · rw [stands.table_eq, ← Problem.map_without stands.declares stands.faithful
      stands.shows.covered_mem, names]

/-- What is seen depends only on what is left. -/
theorem Stands.looksLike (stands : m.Stands p covered) (stands' : m'.Stands p covered')
    (names : ∀ c ∈ p.columns, m.mesh.labelText c = m'.mesh.labelText c)
    (same : ∀ c, c ∈ covered ↔ c ∈ covered') : m.LooksLike m' (p.without covered) := by
  have left : p.without covered = p.without covered' := p.without_congr same
  have strung := stands.shows.strung
  have strung' := stands'.shows.strung
  rw [← left] at strung'
  refine
    { isCovered := fun c answer => ?_
      primaryColumns := ?_
      secondaryColumns := ?_
      uncoveredRows := ?_
      down := fun c hc => ?_
      up := fun c hc => ?_
      count := List.forall_mem_cons.2 ⟨?_, fun c hc => ?_⟩
      neighbor := fun x seen d => strung.neighbor_eq strung' seen d
      table := ?_ }
  · rw [stands.isCovered_iff, stands'.isCovered_iff, decide_eq_decide.2 (same c)]
  · rw [stands.primaryColumns_eq, stands'.primaryColumns_eq, left]
  · rw [stands.secondaryColumns_eq, stands'.secondaryColumns_eq, left]
  · rw [stands.uncoveredRows_eq, stands'.uncoveredRows_eq, left]
  · rw [nodesAfter, nodesAfter, (strung.columns c hc).nodesAfter_down,
      (strung'.columns c hc).nodesAfter_down]
  · rw [nodesAfter, nodesAfter, (strung.columns c hc).nodesAfter_up,
      (strung'.columns c hc).nodesAfter_up]
  · rw [strung.numbers.count, strung'.numbers.count]
  · rw [(strung.columns c hc).count, (strung'.columns c hc).count]
  · rw [stands.table_eq, stands'.table_eq, ← left]
    refine congrArg (Except.ok ∘ Problem.table) ?_
    refine Problem.map_congr (stands.declares.without covered) fun c hc => ?_
    exact names c (Problem.mem_columns_without.1 hc).1

/-- After covers and uncovers, every uncover undoing the latest cover still in force, a matrix shows
what the covered columns leave of the problem it was built for. Any other matrix that was built for
the problem and has the same columns covered looks like it. -/
theorem depicts_left (built : Built start q) (nested : Nested start covered m) :
    m.Depicts q covered ∧
      ∀ {start' m' covered'}, Built start' q → Nested start' covered' m' →
        (∀ c, c ∈ covered ↔ c ∈ covered') → m.LooksLike m' (q.numbered.without covered) := by
  obtain ⟨stands, names⟩ := built.stands_numbered nested
  refine ⟨stands.depicts names, fun built' nested' same => ?_⟩
  obtain ⟨stands', names'⟩ := built'.stands_numbered nested'
  refine stands.looksLike stands' (List.map_inj_left.1 ?_) same
  rw [← Problem.columns_map, ← Problem.columns_map, names, names']

/-- A matrix of which nothing is covered shows the columns and the rows that it was built for, each by
its name. -/
theorem Built.shows_names (built : Built m q) :
    m.primaryColumns.map (List.map m.mesh.labelText) = .ok q.primary ∧
      m.secondaryColumns.map (List.map m.mesh.labelText) = .ok q.secondary ∧
      m.uncoveredRows.map (List.map m.mesh.labelText) = .ok (q.choices.map Choice.name) := by
  obtain ⟨stands, names⟩ := built.stands_numbered .start
  have rows : q.numbered.choices.map (m.mesh.labelText ∘ Choice.number)
      = q.choices.map Choice.name := by
    conv => rhs; rw [← names]
    rw [Problem.map, List.map_map]
    exact List.map_congr_left fun r hr => (stands.shows.holds.rows r hr).label
  rw [stands.primaryColumns_eq, stands.secondaryColumns_eq, stands.uncoveredRows_eq,
    q.numbered.without_nil]
  refine ⟨congrArg _ (congrArg Problem.primary names), congrArg _ (congrArg Problem.secondary names), ?_⟩
  rw [← rows, ← List.map_map]
  rfl

/-- Two columns of the sample are covered, in either order. -/
theorem depicts_left_sample :
    ((sample.hide 4 [5, 6]).hide 3 [8]).table = .ok "-- A\np 1\n" ∧
      ((sample.hide 4 [5, 6]).hide 3 [8]).LooksLike ((sample.hide 3 [8]).hide 4 [5, 6])
        (sampleProblem.numbered.without [3, 4]) := by
  have first : Nested sample [3, 4] ((sample.hide 4 [5, 6]).hide 3 [8]) :=
    .cover (c := 3) (.cover (c := 4) .start rfl) rfl
  have second : Nested sample [4, 3] ((sample.hide 3 [8]).hide 4 [5, 6]) :=
    .cover (c := 4) (.cover (c := 3) .start rfl) rfl
  obtain ⟨depicts, looksLike⟩ := depicts_left built_sample first
  refine ⟨depicts.table.trans (congrArg Except.ok (by decide +kernel)), ?_⟩
  exact looksLike built_sample second fun c => by simp [or_comm]

end Matrix

end DancingLinks
