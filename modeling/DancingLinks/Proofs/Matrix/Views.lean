import DancingLinks.Proofs.ExactCover.Branches
import DancingLinks.Proofs.Matrix.Covering
import DancingLinks.Search

/-!
# What a matrix shows

The views of a matrix that stands for a problem: the columns that are left and the entries in them,
the column that a selector picks, and the rows, which are read from any of their nodes whatever is
covered.
-/

namespace DancingLinks

variable {p : Problem Nat} {covered : List Nat} {r : Choice Nat} {c : Nat} {s : Selector}

/-! ## Rows -/

namespace Mesh.HoldsRow

variable {m : Mesh}

/-- The header of a row is a header. -/
theorem isHeader_number (h : m.HoldsRow p.columns r) : m.isHeader r.number = true := by
  rw [isHeader, h.rowHeader_number, beq_self_eq_true, Bool.true_or]

/-- The header of a row is none of its other nodes. -/
theorem number_ne_node (h : m.HoldsRow p.columns r) (mem : c ∈ r.columns) : r.number ≠ r.node c :=
  fun eq => h.row.ring.start_not_mem (eq ▸ List.mem_map_of_mem mem)

/-- The other nodes of a row are none. -/
theorem isHeader_node (h : m.HoldsRow p.columns r) (mem : c ∈ r.columns) :
    m.isHeader (r.node c) = false := by
  have row : m.rowHeader.get (r.node c) ≠ r.node c := by
    rw [h.rowHeader_node mem]
    exact h.number_ne_node mem
  have column : m.columnHeader.get (r.node c) ≠ r.node c := by
    rw [h.entries c mem]
    exact (h.apart c mem).symm
  rw [isHeader, beq_false_of_ne row, beq_false_of_ne column, Bool.or_false]

/-- The columns beside one that is used are used. -/
theorem mem_beside (h : m.HoldsRow p.columns r) (mem : c ∈ r.columns) {d : Nat}
    (hd : d ∈ r.after c ++ r.before c) : d ∈ r.columns ∧ d ≠ c :=
  (Choice.mem_after_before mem h.nodup).1 (List.mem_append.1 hd)

/-- A row without its header, from one of its nodes on. -/
theorem filter_isHeader (h : m.HoldsRow p.columns r) (mem : c ∈ r.columns) :
    (r.node c :: r.mates c).filter (fun x => !m.isHeader x)
      = (c :: (r.after c ++ r.before c)).map r.node := by
  have body : ∀ ds : List Nat, (∀ d ∈ ds, d ∈ r.columns) →
      (ds.map r.node).filter (fun x => !m.isHeader x) = ds.map r.node := fun ds hds =>
    List.filter_eq_self.2 fun x hx => by
      obtain ⟨d, hd, rfl⟩ := List.mem_map.1 hx
      rw [h.isHeader_node (hds d hd), Bool.not_false]
  have before : ∀ d ∈ r.before c, d ∈ r.columns := fun d hd =>
    (h.mem_beside mem (List.mem_append_right _ hd)).1
  have after : ∀ d ∈ c :: r.after c, d ∈ r.columns :=
    List.forall_mem_cons.2 ⟨mem, fun d hd => (h.mem_beside mem (List.mem_append_left _ hd)).1⟩
  have header : (r.number :: (r.before c).map r.node).filter (fun x => !m.isHeader x)
      = (r.before c).map r.node := by
    rw [List.filter_cons_of_neg (by simp [h.isHeader_number]), body _ before]
  have split : r.node c :: r.mates c
      = (c :: r.after c).map r.node ++ r.number :: (r.before c).map r.node := rfl
  rw [split, List.filter_append, body _ after, header, ← List.map_append, List.cons_append]

/-- The columns of the nodes beside one of a row's nodes. -/
theorem map_columnHeader (h : m.HoldsRow p.columns r) (mem : c ∈ r.columns) :
    ((r.mates c).filter (· != r.number)).map m.columnHeader.get = r.after c ++ r.before c := by
  have body : ∀ ds : List Nat, (∀ d ∈ ds, d ∈ r.columns) →
      ((ds.map r.node).filter (· != r.number)).map m.columnHeader.get = ds := fun ds hds => by
    have kept : (ds.map r.node).filter (· != r.number) = ds.map r.node :=
      List.filter_eq_self.2 fun x hx => by
        obtain ⟨d, hd, rfl⟩ := List.mem_map.1 hx
        exact bne_iff_ne.2 (h.number_ne_node (hds d hd)).symm
    rw [kept, List.map_map]
    exact (List.map_congr_left fun d hd => h.entries d (hds d hd)).trans (List.map_id ds)
  rw [Choice.mates, List.filter_append, List.map_append,
    body _ fun d hd => (h.mem_beside mem (List.mem_append_left _ hd)).1,
    List.filter_cons_of_neg (by simp),
    body _ fun d hd => (h.mem_beside mem (List.mem_append_right _ hd)).1]

/-- The body nodes of a row, from one of them on. -/
theorem entryRow_eq {m : Matrix} (h : m.mesh.HoldsRow p.columns r) (mem : c ∈ r.columns) :
    m.entryRow (r.node c) = .ok ((r.startingAt c).columns.map r.node) := by
  have walk : m.nodesAfter .right (r.node c) = .ok (r.mates c) := by
    rw [Matrix.nodesAfter, h.nodesAfter_right mem]
  simp only [Matrix.entryRow, walk, bind, Except.bind, pure, Except.pure, h.filter_isHeader mem,
    Choice.columns_startingAt mem]

end Mesh.HoldsRow

/-! ## Columns -/

namespace Matrix.Stands

variable {m : Matrix}

theorem primaryColumns_eq (stands : m.Stands p covered) :
    m.primaryColumns = .ok (p.without covered).primary := by
  have row := stands.shows.primary
  rw [primaryColumns, nodesAfter, Mesh.nodesAfter_right row.ring row.bound]

theorem secondaryColumns_eq (stands : m.Stands p covered) :
    m.secondaryColumns = .ok (p.without covered).secondary := by
  have row := stands.shows.secondary
  rw [secondaryColumns, nodesAfter, Mesh.nodesAfter_right row.ring row.bound]

/-- There is nothing left to cover when no primary column is left. -/
theorem isEmpty_iff (stands : m.Stands p covered) :
    m.isEmpty = true ↔ (p.without covered).primary = [] := by
  rw [isEmpty, beq_iff_eq]
  exact stands.shows.primary.ring.next_eq_self

/-- The entries of a column are those of the rows that were left when it was covered, or are left if
it is not. -/
theorem nodesAfter_down (stands : m.Stands p covered) (mem : c ∈ p.columns) :
    m.nodesAfter .down c = .ok ((p.without (Problem.held covered c)).entries c) := by
  rw [nodesAfter, (stands.shows.columns c mem).nodesAfter_down]

/-- A column that is left counts the rows that are left and use it. -/
theorem count_eq (stands : m.Stands p covered) (mem : c ∈ p.columns) (free : c ∉ covered) :
    m.mesh.count c = Problem.uses (p.without covered).choices c := by
  have column := stands.shows.columns c mem
  rw [Problem.held_of_not_mem free] at column
  rw [column.count, Problem.entries, List.length_map, Problem.uses, List.countP_eq_length_filter]

/-- A selector picks the pivot. -/
theorem chooseColumn_eq (stands : m.Stands p covered)
    (pivot : (p.without covered).pivot? s = some c) : m.chooseColumn s = .ok c := by
  have counts : ∀ d ∈ (p.without covered).primary,
      m.mesh.count d = Problem.uses (p.without covered).choices d := fun d hd => by
    obtain ⟨mem, free⟩ := Problem.mem_primary_without.1 hd
    exact stands.count_eq (List.mem_append_left _ mem) free
  have picked : s.choose? m.mesh.count (p.without covered).primary = some c :=
    (Selector.choose?_congr counts).trans pivot
  simp only [chooseColumn, stands.primaryColumns_eq, bind, Except.bind, Selector.choose, picked]

/-- There are more levels than primary columns. -/
theorem lt_levels (stands : m.Stands p covered) : (p.without covered).primary.length < m.levels := by
  have lt := Mesh.length_lt_size stands.shows.primary.ring.nodup stands.shows.primary.bound
  have square : m.mesh.size + 1 ≤ (m.mesh.size + 1) * (m.mesh.size + 1) :=
    Nat.le_mul_self _
  exact Nat.lt_of_lt_of_le (by omega) square

/-! ## Rows of choices -/

/-- The columns that a row uses beside the one of an entry. -/
theorem otherColumns_eq (stands : m.Stands p covered) (hr : r ∈ p.choices) (mem : c ∈ r.columns) :
    m.otherColumns (r.node c) = .ok (r.after c ++ r.before c) := by
  have row := stands.shows.holds.rows r hr
  have walk : m.nodesAfter .right (r.node c) = .ok (r.mates c) := by
    rw [nodesAfter, row.nodesAfter_right mem]
  simp only [otherColumns, walk, bind, Except.bind, pure, Except.pure, row.rowHeader_node mem,
    row.map_columnHeader mem]

/-- The body nodes of a row, from one of them on. -/
theorem entryRow_eq (stands : m.Stands p covered) (hr : r ∈ p.choices) (mem : c ∈ r.columns) :
    m.entryRow (r.node c) = .ok ((r.startingAt c).columns.map r.node) :=
  (stands.shows.holds.rows r hr).entryRow_eq mem

end Matrix.Stands

end DancingLinks
