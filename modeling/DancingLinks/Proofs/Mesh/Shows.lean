import DancingLinks.Matrix.Cover
import DancingLinks.Proofs.ExactCover.Nodes
import DancingLinks.Proofs.Mesh

/-!
# The problem that a mesh shows

`Mesh.Holds` says that a mesh has a header for every column of a problem and a row for every choice;
none of this ever changes. `Mesh.Shows` adds what it looks like when some columns are covered, the
latest first: the rings at the roots are the columns and the rows that are left, and the ring of a
column has the entries of the rows that were left when it was covered, or are left if it is not.

`Shows.hide` is the step: covering one more column takes out live nodes only and leaves a mesh that
shows that column covered too. What it takes out is met again in the reverse order from there
(`HoldsRow.nodesAfter_left`), so uncovering restores the mesh
(`Shows.reveal_hide`).
-/

namespace DancingLinks.Mesh

open DancingLinks.Matrix (primaryRoot secondaryRoot)

variable {m m' : Mesh} {p : Problem Nat} {covered : List Nat} {r s : Choice Nat} {c d h x y : Nat}
  {xs : List Nat}

/-! ## What never changes -/

/-- The row of a choice, with its nodes in the columns that it uses, which are among those there
are. -/
structure HoldsRow (m : Mesh) (columns : List Nat) (r : Choice Nat) : Prop where
  row : m.Row r.number r.nodes
  declared : ∀ c ∈ r.columns, c ∈ columns
  label : m.labelText r.number = r.name
  header : m.columnHeader.get r.number = primaryRoot
  entries : ∀ c ∈ r.columns, m.columnHeader.get (r.node c) = c
  /-- The node of the row in a column is not the header of that column. -/
  apart : ∀ c ∈ r.columns, r.node c ≠ c

/-- The columns and the rows of a problem. -/
structure Holds (m : Mesh) (p : Problem Nat) : Prop where
  /-- The headers of the columns, and the roots, are different nodes. -/
  columns : (primaryRoot :: secondaryRoot :: p.columns).Nodup
  /-- The headers of the rows, and the roots, are different nodes. -/
  numbers : (primaryRoot :: secondaryRoot :: p.choices.map Choice.number).Nodup
  rows : ∀ r ∈ p.choices, m.HoldsRow p.columns r

theorem HoldsRow.nodup (h : m.HoldsRow p.columns r) : r.columns.Nodup :=
  (List.nodup_cons.1 h.row.ring.nodup).2.of_map _

theorem HoldsRow.rowHeader_number (h : m.HoldsRow p.columns r) : m.rowHeader.get r.number = r.number :=
  h.row.header _ List.mem_cons_self

theorem HoldsRow.rowHeader_node (h : m.HoldsRow p.columns r) (mem : c ∈ r.columns) :
    m.rowHeader.get (r.node c) = r.number :=
  h.row.header _ (List.mem_cons_of_mem _ (List.mem_map_of_mem mem))

/-- The nodes beside a node of a row belong to the row. -/
theorem HoldsRow.rowHeader_mates (h : m.HoldsRow p.columns r) (mem : c ∈ r.columns) (hy : y ∈ r.mates c) :
    m.rowHeader.get y = r.number := by
  rcases (Choice.mem_mates mem h.nodup).1 hy with rfl | ⟨d, hd, -, rfl⟩
  · exact h.rowHeader_number
  · exact h.rowHeader_node hd

/-- The row read from one of its nodes. -/
theorem HoldsRow.ring_node (h : m.HoldsRow p.columns r) (mem : c ∈ r.columns) :
    m.horizontal.Ring (r.node c) (r.mates c) := by
  have ring := h.row.ring
  rw [Choice.nodes_eq mem] at ring
  exact ring.rotate

theorem HoldsRow.bound_node (h : m.HoldsRow p.columns r) (mem : c ∈ r.columns) :
    ∀ y ∈ r.node c :: r.mates c, y < m.size := by
  intro y hy
  have inRow : y = r.number ∨ y ∈ r.nodes := by
    rcases List.mem_cons.1 hy with rfl | hy
    · exact .inr (List.mem_map_of_mem mem)
    · rcases (Choice.mem_mates mem h.nodup).1 hy with rfl | ⟨d, hd, -, rfl⟩
      · exact .inl rfl
      · exact .inr (List.mem_map_of_mem hd)
  exact h.row.bound y (List.mem_cons.2 inRow)

/-- The nodes to the right of a node of a row. -/
theorem HoldsRow.nodesAfter_right (h : m.HoldsRow p.columns r) (mem : c ∈ r.columns) :
    m.nodesAfter .right (r.node c) = some (r.mates c) :=
  Mesh.nodesAfter_right (h.ring_node mem) (h.bound_node mem)

/-- The nodes to the left of a node of a row. -/
theorem HoldsRow.nodesAfter_left (h : m.HoldsRow p.columns r) (mem : c ∈ r.columns) :
    m.nodesAfter .left (r.node c) = some (r.mates c).reverse :=
  Mesh.nodesAfter_left (h.ring_node mem) (h.bound_node mem)

/-- The rows are told apart by their headers. -/
theorem Holds.choice_eq (holds : m.Holds p) (hr : r ∈ p.choices) (hs : s ∈ p.choices)
    (same : r.number = s.number) : r = s := by
  have numbers := (List.nodup_cons.1 (List.nodup_cons.1 holds.numbers).2).2
  exact List.inj_on_of_nodup_map numbers hr hs same

theorem Holds.primaryRoot_not_mem (holds : m.Holds p) : primaryRoot ∉ p.columns := fun mem =>
  (List.nodup_cons.1 holds.columns).1 (List.mem_cons_of_mem _ mem)

theorem Holds.secondaryRoot_not_mem (holds : m.Holds p) : secondaryRoot ∉ p.columns :=
  (List.nodup_cons.1 (List.nodup_cons.1 holds.columns).2).1

/-- The node of a row in a column is the header of no row. -/
theorem Holds.node_ne_number (holds : m.Holds p) (hr : r ∈ p.choices) (mem : c ∈ r.columns)
    (hs : s ∈ p.choices) : r.node c ≠ s.number := by
  intro eq
  have known := (holds.rows r hr).entries c mem
  rw [eq, (holds.rows s hs).header] at known
  exact holds.primaryRoot_not_mem (known ▸ (holds.rows r hr).declared c mem)

/-- The nodes that are met from the entries of a column. -/
theorem Holds.mem_mates (holds : m.Holds p) : y ∈ (p.without covered).mates c ↔
    ∃ r ∈ (p.without covered).choices, c ∈ r.columns ∧
      (y = r.number ∨ ∃ d ∈ r.columns, d ≠ c ∧ y = r.node d) := by
  simp only [Problem.mates, List.mem_flatMap, List.mem_filter, decide_eq_true_eq]
  constructor
  · rintro ⟨r, ⟨hr, mem⟩, hy⟩
    have nodup := (holds.rows r (Problem.mem_choices_without.1 hr).1).nodup
    exact ⟨r, hr, mem, (Choice.mem_mates mem nodup).1 hy⟩
  · rintro ⟨r, hr, mem, hy⟩
    have nodup := (holds.rows r (Problem.mem_choices_without.1 hr).1).nodup
    exact ⟨r, ⟨hr, mem⟩, (Choice.mem_mates mem nodup).2 hy⟩

/-- The header of a row is met when the row uses the column. -/
theorem Holds.number_mem_mates (holds : m.Holds p) (hr : r ∈ p.choices) :
    r.number ∈ (p.without covered).mates c ↔ r ∈ (p.without covered).choices ∧ c ∈ r.columns := by
  rw [holds.mem_mates]
  constructor
  · rintro ⟨s, hs, mem, same | ⟨d, hd, -, same⟩⟩
    · rw [holds.choice_eq hr (Problem.mem_choices_without.1 hs).1 same]
      exact ⟨hs, mem⟩
    · exact absurd same.symm (holds.node_ne_number (Problem.mem_choices_without.1 hs).1 hd hr)
  · rintro ⟨hr, mem⟩
    exact ⟨r, hr, mem, .inl rfl⟩

/-- The node of a row in another column is met when the row uses the column. -/
theorem Holds.node_mem_mates (holds : m.Holds p) (hr : r ∈ p.choices) (hd : d ∈ r.columns) :
    r.node d ∈ (p.without covered).mates c ↔
      r ∈ (p.without covered).choices ∧ c ∈ r.columns ∧ d ≠ c := by
  rw [holds.mem_mates]
  constructor
  · rintro ⟨s, hs, mem, same | ⟨e, he, ne, same⟩⟩
    · exact absurd same (holds.node_ne_number hr hd (Problem.mem_choices_without.1 hs).1)
    · have hs' := (Problem.mem_choices_without.1 hs).1
      have row : r.number = s.number := by
        rw [← (holds.rows r hr).rowHeader_node hd, same, (holds.rows s hs').rowHeader_node he]
      have column : d = e := by
        rw [← (holds.rows r hr).entries d hd, same, (holds.rows s hs').entries e he]
      rw [holds.choice_eq hr hs' row, column]
      exact ⟨hs, mem, ne⟩
  · rintro ⟨hr, mem, ne⟩
    exact ⟨r, hr, mem, .inr ⟨d, hd, ne, rfl⟩⟩

/-- No node is met twice. -/
theorem Holds.nodup_mates (holds : m.Holds p) : ((p.without covered).mates c).Nodup := by
  have inProblem : ∀ r ∈ (p.without covered).choices.filter (c ∈ ·.columns),
      m.HoldsRow p.columns r ∧ c ∈ r.columns := fun r hr => by
    simp only [List.mem_filter, decide_eq_true_eq] at hr
    exact ⟨holds.rows r (Problem.mem_choices_without.1 hr.1).1, hr.2⟩
  have numbers : ((p.without covered).choices.filter (c ∈ ·.columns)).Pairwise
      (fun r s => r.number ≠ s.number) := by
    have all := (List.nodup_cons.1 (List.nodup_cons.1 holds.numbers).2).2
    exact ((List.pairwise_map.1 all).filter _).filter _
  refine List.nodup_flatMap.2 ⟨fun r hr => ?_, ?_⟩
  · obtain ⟨row, mem⟩ := inProblem r hr
    exact (List.nodup_cons.1 (row.ring_node mem).nodup).2
  · refine numbers.imp_of_mem fun {r s} hr hs differ => ?_
    intro y hyr hys
    obtain ⟨rowR, memR⟩ := inProblem r hr
    obtain ⟨rowS, memS⟩ := inProblem s hs
    exact differ ((rowR.rowHeader_mates memR hyr).symm.trans (rowS.rowHeader_mates memS hys))

theorem HoldsRow.congr (h : m.HoldsRow p.columns r) (alike : m.Alike m') : m'.HoldsRow p.columns r :=
  ⟨h.row.congr alike, h.declared, by rw [← alike.labelText, h.label],
    by rw [← alike.columnHeader, h.header],
    fun c mem => by rw [← alike.columnHeader, h.entries c mem], h.apart⟩

theorem Holds.congr (holds : m.Holds p) (alike : m.Alike m') : m'.Holds p :=
  ⟨holds.columns, holds.numbers, fun r hr => (holds.rows r hr).congr alike⟩

/-! ## What changes -/

/-- The mesh shows what is left of a problem when some columns are covered, the latest first. -/
structure Shows (m : Mesh) (p : Problem Nat) (covered : List Nat) : Prop where
  holds : m.Holds p
  covered_nodup : covered.Nodup
  covered_mem : ∀ c ∈ covered, c ∈ p.columns
  primary : m.Row primaryRoot (p.without covered).primary
  secondary : m.Row secondaryRoot (p.without covered).secondary
  rows : m.Column primaryRoot ((p.without covered).choices.map Choice.number)
  /-- Nothing ever hangs below the root of the secondary columns. -/
  spare : m.Column secondaryRoot []
  /-- The ring of a column stays as it was when the column was covered. -/
  columns : ∀ c ∈ p.columns, m.Column c ((p.without (Problem.held covered c)).entries c)
  hidden : ∀ c ∈ covered, m.neighbor .right (m.neighbor .left c) ≠ c

theorem Shows.congr (shows : m.Shows p covered) (alike : m.Alike m') : m'.Shows p covered :=
  ⟨shows.holds.congr alike, shows.covered_nodup, shows.covered_mem, shows.primary.congr alike,
    shows.secondary.congr alike, shows.rows.congr alike, shows.spare.congr alike,
    fun c mem => (shows.columns c mem).congr alike, by rw [← alike.neighbor]; exact shows.hidden⟩

/-- A column that is not covered hangs in the ring of a root. -/
theorem Shows.exists_row (shows : m.Shows p covered) (mem : c ∈ p.columns) (free : c ∉ covered) :
    ∃ root xs, (root = primaryRoot ∨ root = secondaryRoot) ∧ m.Row root xs ∧ c ∈ xs ∧
      ∀ d ∈ covered, d ∉ root :: xs := by
  have primary : ∀ d ∈ covered, d ∉ primaryRoot :: (p.without covered).primary := by
    rintro d hd (_ | ⟨_, there⟩)
    · exact shows.holds.primaryRoot_not_mem (shows.covered_mem _ hd)
    · exact (Problem.mem_primary_without.1 there).2 hd
  have secondary : ∀ d ∈ covered, d ∉ secondaryRoot :: (p.without covered).secondary := by
    rintro d hd (_ | ⟨_, there⟩)
    · exact shows.holds.secondaryRoot_not_mem (shows.covered_mem _ hd)
    · exact (Problem.mem_secondary_without.1 there).2 hd
  rcases List.mem_append.1 mem with mem | mem
  · exact ⟨_, _, .inl rfl, shows.primary, Problem.mem_primary_without.2 ⟨mem, free⟩, primary⟩
  · exact ⟨_, _, .inr rfl, shows.secondary, Problem.mem_secondary_without.2 ⟨mem, free⟩, secondary⟩

/-- A column that is not covered is found from its neighbours. -/
theorem Shows.linked (shows : m.Shows p covered) (mem : c ∈ p.columns) (free : c ∉ covered) :
    m.horizontal.Linked c := by
  obtain ⟨root, xs, -, row, hc, -⟩ := shows.exists_row mem free
  exact row.ring.linked (List.mem_cons_of_mem _ hc)

/-- A column is covered when its left neighbour does not lead back to it. -/
theorem Shows.hidden_iff (shows : m.Shows p covered) (mem : c ∈ p.columns) :
    m.neighbor .right (m.neighbor .left c) ≠ c ↔ c ∈ covered := by
  constructor
  · intro hidden
    by_contra free
    exact hidden (shows.linked mem free).1
  · exact shows.hidden c

/-- What is met from the entries of a column that is not covered can be taken out. -/
theorem Shows.live_mates (shows : m.Shows p covered) :
    ∀ y ∈ (p.without covered).mates c, m.Live y := by
  intro y hy
  obtain ⟨r, hr, -, rfl | ⟨d, hd, -, rfl⟩⟩ := shows.holds.mem_mates.1 hy
  · have row := shows.holds.rows r (Problem.mem_choices_without.1 hr).1
    refine ⟨_, by rw [row.header]; exact shows.rows, List.mem_map_of_mem hr⟩
  · obtain ⟨inProblem, avoids⟩ := Problem.mem_choices_without.1 hr
    have row := shows.holds.rows r inProblem
    have column := shows.columns d (row.declared d hd)
    rw [Problem.held_of_not_mem (avoids d hd)] at column
    refine ⟨_, by rw [row.entries d hd]; exact column, ?_⟩
    exact List.mem_map_of_mem (List.mem_filter.2 ⟨hr, by simpa using hd⟩)

/-! ## Covering one more column -/

/-- The rows that use the covered column leave the ring of the rows. -/
theorem Holds.filter_numbers (holds : m.Holds p) :
    ((p.without covered).choices.map Choice.number).filter (· ∉ (p.without covered).mates c)
      = (p.without (c :: covered)).choices.map Choice.number := by
  rw [List.filter_map, Problem.choices_without_cons]
  refine congrArg _ (List.filter_congr fun r hr => ?_)
  simp [holds.number_mem_mates (Problem.mem_choices_without.1 hr).1, hr]

/-- The entries of these rows leave the columns that are not covered. -/
theorem Holds.filter_entries (holds : m.Holds p) (ne : d ≠ c) :
    ((p.without covered).entries d).filter (· ∉ (p.without covered).mates c)
      = (p.without (c :: covered)).entries d := by
  rw [Problem.entries, Problem.entries, List.filter_map,
    Problem.choices_without_cons, List.filter_filter, List.filter_filter]
  refine congrArg _ (List.filter_congr fun r hr => ?_)
  by_cases hd : d ∈ r.columns
  · simp [holds.node_mem_mates (Problem.mem_choices_without.1 hr).1 hd, hr, ne, hd]
  · simp [hd]

/-- The entries of a covered column, or of the one that is being covered, stay. -/
theorem Holds.filter_held (holds : m.Holds p) {held : List Nat} (kept : d = c ∨ d ∈ covered) :
    ((p.without held).entries d).filter (· ∉ (p.without covered).mates c)
      = (p.without held).entries d := by
  refine List.filter_eq_self.2 fun x hx => ?_
  obtain ⟨r, hr, rfl⟩ := List.mem_map.1 hx
  obtain ⟨hr, hd⟩ := List.mem_filter.1 hr
  simp only [decide_eq_true_eq] at hd ⊢
  rw [holds.node_mem_mates (Problem.mem_choices_without.1 hr).1 hd]
  rintro ⟨left, -, ne⟩
  exact (Problem.mem_choices_without.1 left).2 d hd (kept.resolve_left ne)

/-- The row of a choice does not notice a column header that is taken out. -/
theorem Shows.hide_row (shows : m.Shows p covered) (mem : c ∈ p.columns) (free : c ∉ covered)
    (hr : r ∈ p.choices) (nodes : List Nat) : (m.hide c nodes).HoldsRow p.columns r := by
  have h := shows.holds.rows r hr
  obtain ⟨root, xs, isRoot, row, hc, -⟩ := shows.exists_row mem free
  have differ : r.number ≠ root := by
    have numbers := shows.holds.numbers
    rw [List.nodup_cons, List.nodup_cons, List.mem_cons, not_or] at numbers
    have there : r.number ∈ p.choices.map Choice.number := List.mem_map_of_mem hr
    rcases isRoot with rfl | rfl
    · exact fun eq => numbers.1.2 (eq ▸ there)
    · exact fun eq => numbers.2.1 (eq ▸ there)
  have out : c ∉ r.number :: r.nodes := fun there =>
    differ ((h.row.header c there).symm.trans (row.header c (List.mem_cons_of_mem _ hc)))
  have kept : r.nodes.filter (· ≠ c) = r.nodes := List.filter_eq_self.2 fun x hx => by
    simpa using fun eq : x = c => out (List.mem_cons_of_mem _ (eq ▸ hx))
  refine ⟨?_, h.declared, by rw [labelText_hide, h.label], by rw [columnHeader_hide, h.header],
    by rw [columnHeader_hide]; exact h.entries, h.apart⟩
  have := h.row.hide (shows.linked mem free) (fun eq => out (eq ▸ List.mem_cons_self)) nodes
  rwa [kept] at this

/-- Covered columns stay hidden when one more column is taken out, and so does that one. -/
theorem Shows.hide_hidden (shows : m.Shows p covered) (mem : c ∈ p.columns) (free : c ∉ covered)
    (nodes : List Nat) (hd : d ∈ c :: covered) :
    (m.hide c nodes).neighbor .right ((m.hide c nodes).neighbor .left d) ≠ d := by
  obtain ⟨root, xs, -, row, hc, out⟩ := shows.exists_row mem free
  have links : (m.hide c nodes).neighbor .right ((m.hide c nodes).neighbor .left d)
      = (m.horizontal.unlink c).next.get ((m.horizontal.unlink c).prev.get d) := by
    rw [← horizontal_hide m c nodes]; rfl
  rw [links]
  rcases List.mem_cons.1 hd with rfl | hd
  · exact row.ring.hidden_self hc
  · exact row.ring.hidden_unlink (List.mem_cons_of_mem _ hc) (out d hd) (shows.hidden d hd)

/-- Covering a column leaves a mesh that shows it covered. -/
theorem Shows.hide (shows : m.Shows p covered) (mem : c ∈ p.columns) (free : c ∉ covered) :
    (m.hide c ((p.without covered).mates c)).Shows p (c :: covered) := by
  have holds := shows.holds
  have linked := shows.linked mem free
  have column : ∀ {h xs}, m.Column h xs → (m.hide c ((p.without covered).mates c)).Column h
      (xs.filter (· ∉ (p.without covered).mates c)) := fun column =>
    column.hide holds.nodup_mates shows.live_mates
  refine ⟨⟨holds.columns, holds.numbers, fun r hr => shows.hide_row mem free hr _⟩,
    List.nodup_cons.2 ⟨free, shows.covered_nodup⟩, List.forall_mem_cons.2 ⟨mem, shows.covered_mem⟩,
    ?_, ?_, ?_, column shows.spare, fun d hd => ?_, fun d => shows.hide_hidden mem free _⟩
  · rw [Problem.primary_without_cons]
    exact shows.primary.hide linked (fun eq => holds.primaryRoot_not_mem (eq ▸ mem)) _
  · rw [Problem.secondary_without_cons]
    exact shows.secondary.hide linked (fun eq => holds.secondaryRoot_not_mem (eq ▸ mem)) _
  · rw [← holds.filter_numbers]
    exact column shows.rows
  · have column := column (shows.columns d hd)
    by_cases same : d = c
    · rw [same, Problem.held_of_not_mem free, holds.filter_held (.inl rfl)] at column
      rw [same, Problem.held_cons_self]
      exact column
    · by_cases before : d ∈ covered
      · rw [holds.filter_held (.inr before)] at column
        rw [Problem.held_cons_of_mem before same]
        exact column
      · rw [Problem.held_of_not_mem before, holds.filter_entries same] at column
        rw [Problem.held_of_not_mem (by simp [same, before])]
        exact column

/-- Uncovering the column that was covered last restores the mesh. -/
theorem Shows.reveal_hide (shows : m.Shows p covered) (mem : c ∈ p.columns) (free : c ∉ covered) :
    ((m.hide c ((p.without covered).mates c)).reveal c
      ((p.without covered).mates c).reverse).Alike m :=
  Mesh.reveal_hide (shows.linked mem free) shows.holds.nodup_mates shows.live_mates

end DancingLinks.Mesh
