import DancingLinks.Proofs.Matrix.Building

/-!
# The problem by its names

A matrix stands for a problem whose columns are the numbers of their headers. Since no two columns
share a name it may as well be read with their names, and then it is the problem that the matrix was
built for, whatever was covered since (`Built.stands`). The other way round, headers are numbered in
the order of declaration, so the names say which problem with numbers it is (`Problem.numbered`,
`Built.stands_numbered`).
-/

namespace DancingLinks

namespace Matrix

variable {m start : Matrix} {p : Problem Nat} {q : Problem String} {covered : List Nat}

/-- Rows use columns of the problem. -/
theorem Stands.declares (stands : m.Stands p covered) : p.Declares :=
  fun r hr => (stands.shows.holds.rows r hr).declared

/-- The names of the columns, in the order of declaration. -/
theorem Stands.map_columns (stands : m.Stands p covered) :
    p.columns.map m.mesh.labelText = m.primary ++ m.secondary := by
  rw [Problem.columns, List.map_append, stands.primaryNames, stands.secondaryNames]

/-- Different columns have different names. -/
theorem Stands.faithful (stands : m.Stands p covered) : p.Faithful m.mesh.labelText := by
  have nodup : (p.columns.map m.mesh.labelText).Nodup := stands.map_columns ▸ m.distinct
  exact fun a ha b hb same => List.inj_on_of_nodup_map nodup ha hb same

/-- Rows are told apart by the numbers of their headers. -/
theorem Stands.different (stands : m.Stands p covered) :
    (p.choices.map Choice.number).Nodup :=
  (List.nodup_cons.1 (List.nodup_cons.1 stands.shows.holds.numbers).2).2

/-- Covers and uncovers keep the labels of the nodes. -/
theorem Nested.labels_eq (nested : Nested start covered m) : m.mesh.labels = start.mesh.labels := by
  induction nested with
  | start => rfl
  | cover _ done ih =>
    obtain ⟨nodes, -, made⟩ := ok_of_bind done
    cases made
    exact (Mesh.labels_hide ..).trans ih
  | uncover _ done ih =>
    obtain ⟨nodes, -, made⟩ := ok_of_bind done
    cases made
    exact (Mesh.labels_reveal ..).trans ih

theorem Nested.labelText_eq (nested : Nested start covered m) :
    m.mesh.labelText = start.mesh.labelText := by
  funext x
  rw [Mesh.labelText, Mesh.label?, nested.labels_eq, Mesh.labelText, Mesh.label?]

/-- A matrix that was built for a problem, and then had columns covered and uncovered, stands for
that problem with the columns covered that are. -/
theorem Built.stands (built : Built start q) (nested : Nested start covered m) :
    ∃ p, m.Stands p covered ∧ p.map m.mesh.labelText = q ∧
      covered.map m.mesh.labelText = covered.map start.mesh.labelText := by
  obtain ⟨p, founded, names⟩ := built.founded
  have stands := nested.stands founded.stands
  rw [List.append_nil] at stands
  rw [nested.labelText_eq]
  exact ⟨p, stands, names, rfl⟩

end Matrix

/-! ## Headers -/

namespace Problem

/-- The header of a column, in a matrix that is built for the problem. -/
def header (q : Problem String) (name : String) : Nat := Matrix.firstColumn + q.columns.idxOf name

/-- The problem with its columns given by their headers. -/
def numbered (q : Problem String) : Problem Nat := q.map q.header

/-- One more choice has the same headers. -/
theorem numbered_add (q : Problem String) (r : Choice String) :
    (q.add r).numbered = q.numbered.add (r.map q.header) := by
  simp only [numbered, map, add, List.map_append, List.map_cons, List.map_nil]
  rfl

end Problem

namespace Matrix

variable {m start : Matrix} {p : Problem Nat} {q : Problem String} {covered : List Nat}

/-- Headers are numbered in the order of declaration. -/
theorem Stands.header_labelText (stands : m.Stands p covered) {c : Nat} (hc : c ∈ p.columns) :
    (p.map m.mesh.labelText).header (m.mesh.labelText c) = c := by
  have columns : p.columns
      = List.range' firstColumn (m.primary.length + m.secondary.length) := by
    rw [Problem.columns, stands.primary, stands.secondary, List.range'_append_1]
  obtain ⟨i, lt, rfl⟩ := List.getElem_of_mem hc
  have nodup : (p.columns.map m.mesh.labelText).Nodup := stands.map_columns ▸ m.distinct
  have place := nodup.idxOf_getElem i (by rwa [List.length_map])
  rw [List.getElem_map] at place
  rw [Problem.header, Problem.columns_map, place]
  simp only [columns, List.getElem_range', Nat.one_mul]

/-- A matrix stands for the problem that it was built for, its columns given by their headers. -/
theorem Built.stands_numbered (built : Built start q) (nested : Nested start covered m) :
    m.Stands q.numbered covered ∧ q.numbered.map m.mesh.labelText = q := by
  obtain ⟨p, stands, rfl, -⟩ := built.stands nested
  have same : (p.map m.mesh.labelText).numbered = p :=
    Problem.map_map_cancel stands.declares fun c hc => stands.header_labelText hc
  rw [same]
  exact ⟨stands, rfl⟩

/-- A matrix that was built for a problem has all of it uncovered, its columns given by their headers.
-/
theorem Built.founded_numbered (built : Built m q) : m.Founded q.numbered := by
  obtain ⟨p, founded, rfl⟩ := built.founded
  have same : (p.map m.mesh.labelText).numbered = p :=
    Problem.map_map_cancel founded.stands.declares fun c hc => founded.stands.header_labelText hc
  rwa [same]

/-- The columns that were declared are found at their headers. -/
theorem Built.column_eq_ok_iff (built : Built m q) {name : String} {c : Nat} :
    m.column name = .ok c ↔ name ∈ q.columns ∧ q.header name = c := by
  have columns : m.primary ++ m.secondary = q.columns := by
    rw [built.columns_eq.1, built.columns_eq.2, Problem.columns]
  by_cases mem : name ∈ q.columns
  · rw [Matrix.column_eq (columns ▸ mem), columns, Except.ok.injEq, Problem.header]
    exact (and_iff_right mem).symm
  · simp [column_eq_error (columns ▸ mem), mem]

/-- The rows of a matrix use its columns. -/
theorem Built.declares (built : Built m q) : q.Declares := by
  obtain ⟨stands, names⟩ := built.stands_numbered .start
  exact names ▸ Problem.Declares.map stands.declares m.mesh.labelText

/-- The rows of a matrix have different numbers. -/
theorem Built.different (built : Built m q) : (q.choices.map Choice.number).Nodup := by
  obtain ⟨stands, names⟩ := built.stands_numbered .start
  rw [← names, Problem.map_number_map]
  exact stands.different

/-- No row of a matrix uses a column twice. -/
theorem Built.nodup_columns (built : Built m q) : ∀ r ∈ q.choices, r.columns.Nodup := by
  obtain ⟨stands, names⟩ := built.stands_numbered .start
  intro r hr
  rw [← names] at hr
  obtain ⟨r', hr', rfl⟩ := List.mem_map.1 hr
  have row := stands.shows.holds.rows r' hr'
  exact row.nodup.map_on fun c hc d hd =>
    stands.faithful c (row.declared c hc) d (row.declared d hd)

end Matrix

end DancingLinks
