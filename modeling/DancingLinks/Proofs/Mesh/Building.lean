import DancingLinks.Proofs.Mesh.Insertion
import DancingLinks.Proofs.Mesh.Shows

/-!
# Building the mesh of a problem

`Mesh.Uncovered` is the shape of a mesh that shows all of a problem (`Uncovered.shows`). It holds of
the two roots alone, and is kept by a new column header, by a new row without entries, and by a new
entry of the last row: each puts one fresh node at the end of a row and of a column.
-/

namespace DancingLinks.Mesh

open DancingLinks.Matrix (primaryRoot secondaryRoot)

variable {m : Mesh} {p : Problem Nat} {r s : Choice Nat} {c d h row y : Nat} {xs : List Nat}
  {name : String} {label : Option String}

/-! ## Labels -/

/-- A new node leaves the labels of the others. -/
theorem label?_addNode (lt : y < m.size) : (m.addNode label).label? y = m.label? y := by
  simp only [label?, addNode]
  rw [Array.getElem?_push_lt lt, Array.getElem?_eq_getElem lt]

theorem labelText_addNode (lt : y < m.size) : (m.addNode label).labelText y = m.labelText y := by
  rw [labelText, label?_addNode lt, labelText]

/-- A new node has the label that it was given. -/
theorem labelText_addNode_self : (m.addNode (some name)).labelText m.size = name := by
  simp [labelText, label?, addNode, size]

/-! ## Rows of choices -/

theorem HoldsRow.addNode (h : m.HoldsRow p.columns r) : (m.addNode label).HoldsRow p.columns r :=
  ⟨h.row.addNode, h.declared,
    (labelText_addNode (h.row.bound _ List.mem_cons_self)).trans h.label, h.header, h.entries,
    h.apart⟩

theorem HoldsRow.insertLeft (h : m.HoldsRow p.columns r) (row : m.Row d xs) (ne : r.number ≠ d)
    (fresh : y ∉ r.number :: r.nodes) : (m.insertLeft d y).HoldsRow p.columns r :=
  ⟨row.insertLeft_other h.row ne fresh, h.declared, h.label, h.header, h.entries, h.apart⟩

theorem HoldsRow.insertUp (h : m.HoldsRow p.columns r) (fresh : y ∉ r.number :: r.nodes) (c : Nat) :
    (m.insertUp c y).HoldsRow p.columns r := by
  refine ⟨h.row.insertUp c y, h.declared, h.label, ?_, fun d hd => ?_, h.apart⟩
  · rw [columnHeader_insertUp, if_neg fun eq : r.number = y => fresh (eq ▸ List.mem_cons_self)]
    exact h.header
  · have mem : r.node d ∈ r.number :: r.nodes := List.mem_cons_of_mem _ (List.mem_map_of_mem hd)
    rw [columnHeader_insertUp, if_neg fun eq : r.node d = y => fresh (eq ▸ mem)]
    exact h.entries d hd

/-- The next number is not that of a node of a row. -/
theorem Row.size_not_mem (row : m.Row h xs) : m.size ∉ h :: xs := fun mem =>
  Nat.lt_irrefl _ (row.bound _ mem)

/-- The next number is not that of a node of a column. -/
theorem Column.size_not_mem (column : m.Column c xs) : m.size ∉ c :: xs := fun mem =>
  Nat.lt_irrefl _ (column.bound _ mem)

/-! ## Meshes with all columns uncovered -/

/-- The mesh shows all of a problem, and has no node beside. -/
structure Uncovered (m : Mesh) (p : Problem Nat) : Prop where
  holds : m.Holds p
  primary : m.Row primaryRoot p.primary
  secondary : m.Row secondaryRoot p.secondary
  rows : m.Column primaryRoot (p.choices.map Choice.number)
  spare : m.Column secondaryRoot []
  columns : ∀ c ∈ p.columns, m.Column c (p.entries c)
  tidy : m.Tidy

/-- A mesh with all columns uncovered shows the problem. -/
theorem Uncovered.shows (h : m.Uncovered p) : m.Shows p [] := by
  have all : ∀ c, p.without (Problem.held [] c) = p := fun c => p.without_nil
  refine ⟨h.holds, .nil, nofun, ?_, ?_, ?_, h.spare, fun c mem => ?_, nofun⟩
  · rw [p.without_nil]; exact h.primary
  · rw [p.without_nil]; exact h.secondary
  · rw [p.without_nil]; exact h.rows
  · rw [all]; exact h.columns c mem

/-- The two roots alone are a mesh without columns. -/
theorem uncovered_roots (first second : Option String) :
    ((Mesh.empty.addNode first).addNode second).Uncovered ⟨[], [], []⟩ := by
  have tidy : ((Mesh.empty.addNode first).addNode second).Tidy := tidy_empty.addNode.addNode
  have root : ((Mesh.empty.addNode first).addNode second).Fresh primaryRoot :=
    have fresh := tidy_empty primaryRoot (Nat.zero_le _)
    ⟨fresh.horizontal, fresh.vertical, fresh.rowHeader, fresh.columnHeader, fresh.count⟩
  have other : ((Mesh.empty.addNode first).addNode second).Fresh secondaryRoot :=
    have fresh := tidy_empty secondaryRoot (Nat.zero_le _)
    ⟨fresh.horizontal, fresh.vertical, fresh.rowHeader, fresh.columnHeader, fresh.count⟩
  have size : ((Mesh.empty.addNode first).addNode second).size = 2 := rfl
  exact ⟨⟨by simp [primaryRoot, secondaryRoot, Problem.columns],
      by simp [primaryRoot, secondaryRoot], nofun⟩, root.row (by simp [size, primaryRoot]),
    other.row (by simp [size, secondaryRoot]), root.column (by simp [size, primaryRoot]),
    other.column (by simp [size, secondaryRoot]), nofun, tidy⟩

/-! ## A new column -/

theorem Uncovered.primaryRoot_lt (h : m.Uncovered p) : primaryRoot < m.size :=
  h.primary.bound _ List.mem_cons_self

theorem Uncovered.secondaryRoot_lt (h : m.Uncovered p) : secondaryRoot < m.size :=
  h.secondary.bound _ List.mem_cons_self

/-- Column headers are nodes of the mesh. -/
theorem Uncovered.column_lt (h : m.Uncovered p) (mem : c ∈ p.columns) : c < m.size :=
  (h.columns c mem).bound c List.mem_cons_self

/-- A problem without choices with one more column, in whichever place. -/
theorem Uncovered.columns_addHeader (h : m.Uncovered p) (none : p.choices = []) {root : Nat}
    {p' : Problem Nat} (none' : p'.choices = []) (more : p'.columns.Perm (m.size :: p.columns)) :
    (Matrix.addHeader root m name).Holds p' ∧
      (Matrix.addHeader root m name).Column primaryRoot (p'.choices.map Choice.number) ∧
      ∀ c ∈ p'.columns, (Matrix.addHeader root m name).Column c (p'.entries c) := by
  have fresh : m.size ∉ primaryRoot :: secondaryRoot :: p.columns := by
    simp only [List.mem_cons, not_or]
    exact ⟨Nat.ne_of_gt h.primaryRoot_lt, Nat.ne_of_gt h.secondaryRoot_lt,
      fun mem => Nat.lt_irrefl _ (h.column_lt mem)⟩
  have perm : (primaryRoot :: secondaryRoot :: p'.columns).Perm
      (m.size :: primaryRoot :: secondaryRoot :: p.columns) :=
    (((more.cons _).trans (.swap ..)).cons _).trans (.swap ..)
  refine ⟨⟨perm.nodup_iff.2 (List.nodup_cons.2 ⟨fresh, h.holds.columns⟩), ?_, ?_⟩, ?_, ?_⟩
  · rw [none', ← none]; exact h.holds.numbers
  · rw [none']; exact nofun
  · rw [none', ← none]; exact h.rows.addNode.insertLeft root m.size
  · intro c mem
    have empty : p'.entries c = [] := by rw [Problem.entries, none']; rfl
    rw [empty]
    rcases List.mem_cons.1 (more.mem_iff.1 mem) with rfl | mem
    · exact (h.tidy.fresh_addNode.column (by simp)).insertLeft root m.size
    · have column : (m.addNode (some name)).Column c (p.entries c) := (h.columns c mem).addNode
      rw [Problem.entries, none] at column
      exact column.insertLeft root m.size

/-- A new primary column goes to the end of the ring of primary columns. -/
theorem Uncovered.addPrimary {ps ss : List Nat} (h : m.Uncovered ⟨ps, ss, []⟩) (name : String) :
    (Matrix.addHeader primaryRoot m name).Uncovered ⟨ps ++ [m.size], ss, []⟩ := by
  have more : (Problem.mk (ps ++ [m.size]) ss ([] : List (Choice Nat))).columns.Perm
      (m.size :: (Problem.mk ps ss ([] : List (Choice Nat))).columns) := by
    simp only [Problem.columns, List.append_assoc, List.singleton_append]
    exact List.perm_middle
  obtain ⟨holds, rows, columns⟩ := h.columns_addHeader rfl rfl more
  exact ⟨holds, h.primary.addNode.insertLeft h.primary.size_not_mem (by simp),
    h.primary.addNode.insertLeft_other h.secondary.addNode (by decide) h.secondary.size_not_mem,
    rows, h.spare.addNode.insertLeft .., columns,
    h.tidy.addNode.insertLeft h.primary.addNode (by simp)⟩

/-- A new secondary column goes to the end of the ring of secondary columns. -/
theorem Uncovered.addSecondary {ps ss : List Nat} (h : m.Uncovered ⟨ps, ss, []⟩)
    (name : String) :
    (Matrix.addHeader secondaryRoot m name).Uncovered ⟨ps, ss ++ [m.size], []⟩ := by
  have more : (Problem.mk ps (ss ++ [m.size]) ([] : List (Choice Nat))).columns.Perm
      (m.size :: (Problem.mk ps ss ([] : List (Choice Nat))).columns) := by
    simp only [Problem.columns, ← List.append_assoc]
    exact List.perm_append_singleton ..
  obtain ⟨holds, rows, columns⟩ := h.columns_addHeader rfl rfl more
  exact ⟨holds, h.secondary.addNode.insertLeft_other h.primary.addNode (by decide)
      h.primary.size_not_mem,
    h.secondary.addNode.insertLeft h.secondary.size_not_mem (by simp),
    rows, h.spare.addNode.insertLeft .., columns,
    h.tidy.addNode.insertLeft h.secondary.addNode (by simp)⟩

/-! ## A new row -/

/-- The rows of a problem with a new one that has no entry yet. -/
theorem Holds.addRow (holds : m.Holds p) (name : String)
    (roots : primaryRoot < m.size ∧ secondaryRoot < m.size) (alone : m.horizontal.Ring m.size [])
    (own : m.rowHeader.get m.size = m.size)
    (above : m.columnHeader.get (m.vertical.prev.get primaryRoot) = primaryRoot) :
    ((m.addNode (some name)).insertUp primaryRoot m.size).Holds (p.add ⟨m.size, name, []⟩) := by
  have lt : m.size < (m.addNode (some name)).size := by simp
  have numbers : m.size ∉ primaryRoot :: secondaryRoot :: p.choices.map Choice.number := by
    simp only [List.mem_cons, List.mem_map, not_or]
    refine ⟨Nat.ne_of_gt roots.1, Nat.ne_of_gt roots.2, ?_⟩
    rintro ⟨r, hr, eq⟩
    exact (holds.rows r hr).row.size_not_mem (eq ▸ List.mem_cons_self)
  refine ⟨holds.columns, ?_, fun r hr => ?_⟩
  · have perm := List.perm_append_singleton m.size
      (primaryRoot :: secondaryRoot :: p.choices.map Choice.number)
    simpa [Problem.add] using perm.nodup_iff.2 (List.nodup_cons.2 ⟨numbers, holds.numbers⟩)
  · rcases List.mem_append.1 hr with hr | hr
    · have row := holds.rows r hr
      exact row.addNode.insertUp row.row.size_not_mem primaryRoot
    · obtain rfl := List.mem_singleton.1 hr
      have row : (m.addNode (some name)).Row m.size [] :=
        ⟨alone, List.forall_mem_singleton.2 own, List.forall_mem_singleton.2 lt⟩
      exact ⟨row.insertUp .., List.forall_mem_nil _, labelText_addNode_self,
        (columnHeader_insertUp ..).trans ((if_pos rfl).trans above), List.forall_mem_nil _,
        List.forall_mem_nil _⟩

/-- A new row has no entry yet. -/
theorem Uncovered.addRow (h : m.Uncovered p) (name : String) :
    ((m.addNode (some name)).insertUp primaryRoot m.size).Uncovered
      (p.add ⟨m.size, name, []⟩) := by
  have fresh := h.tidy m.size (Nat.le_refl _)
  have lt : m.size < (m.addNode (some name)).size := by simp
  have above := h.rows.header _ (h.rows.ring.prev_mem List.mem_cons_self)
  have rows := h.rows.addNode.insertUp h.rows.size_not_mem lt
  refine ⟨h.holds.addRow name ⟨h.primaryRoot_lt, h.secondaryRoot_lt⟩ fresh.horizontal
      fresh.rowHeader above, h.primary.addNode.insertUp .., h.secondary.addNode.insertUp ..,
    ?_, h.rows.addNode.insertUp_other h.spare.addNode (by decide) h.spare.size_not_mem, ?_,
    h.tidy.addNode.insertUp h.rows.addNode lt⟩
  · simpa [Problem.add] using rows
  · intro c mem
    rw [p.entries_add, if_neg List.not_mem_nil, List.append_nil]
    have other : c ≠ primaryRoot := fun eq => h.holds.primaryRoot_not_mem (eq ▸ mem)
    exact h.rows.addNode.insertUp_other (h.columns c mem).addNode other
      (h.columns c mem).size_not_mem

/-! ## A new entry of the last row -/

/-- The row of the last choice with a new entry. -/
theorem HoldsRow.addEntry (h : m.HoldsRow p.columns r) (last : m.size = r.number + 1 + r.columns.length)
    (mem : c ∈ p.columns) (new : c ∉ r.columns) (lt : c < m.size)
    (above : m.columnHeader.get (m.vertical.prev.get c) = c) :
    (Matrix.addEntry r.number m c).HoldsRow p.columns (r.extend c) := by
  have next : m.size < (m.addNode none).size := by simp
  have inRow : (m.addNode none).Row r.number r.nodes := h.row.addNode
  refine ⟨?_, ?_, ?_, ?_, ?_, ?_⟩
  · rw [Choice.nodes_extend new, ← last]
    exact (inRow.insertLeft h.row.size_not_mem next).insertUp c m.size
  · intro d hd
    rcases List.mem_append.1 hd with hd | hd
    · exact h.declared d hd
    · rw [List.mem_singleton.1 hd]; exact mem
  · exact (labelText_addNode (h.row.bound _ List.mem_cons_self)).trans h.label
  · have old : r.number ≠ m.size := fun eq => h.row.size_not_mem (eq ▸ List.mem_cons_self)
    exact (columnHeader_insertUp ..).trans ((if_neg old).trans h.header)
  · intro d hd
    rcases List.mem_append.1 hd with hd | hd
    · rw [Choice.node_extend_of_mem hd]
      have there : r.node d ∈ r.number :: r.nodes :=
        List.mem_cons_of_mem _ (List.mem_map_of_mem hd)
      have old : r.node d ≠ m.size := fun eq => h.row.size_not_mem (eq ▸ there)
      exact (columnHeader_insertUp ..).trans ((if_neg old).trans (h.entries d hd))
    · obtain rfl := List.mem_singleton.1 hd
      rw [Choice.node_extend_self new, ← last]
      exact (columnHeader_insertUp ..).trans ((if_pos rfl).trans above)
  · intro d hd
    rcases List.mem_append.1 hd with hd | hd
    · rw [Choice.node_extend_of_mem hd]
      exact h.apart d hd
    · obtain rfl := List.mem_singleton.1 hd
      rw [Choice.node_extend_self new, ← last]
      exact (Nat.ne_of_lt lt).symm

/-- Rows are told apart from the last one by their headers. -/
theorem Holds.number_ne_last (holds : m.Holds (p.add r)) (hs : s ∈ p.choices) :
    s.number ≠ r.number := by
  have apart := (List.nodup_cons.1 (List.nodup_cons.1 holds.numbers).2).2
  rw [Problem.add, List.map_append, List.nodup_append] at apart
  exact apart.2.2 _ (List.mem_map_of_mem hs) _ (by simp)

/-- The rows of a problem with a new entry of the last one. -/
theorem Holds.addEntry (holds : m.Holds (p.add r))
    (last : m.size = r.number + 1 + r.columns.length) (mem : c ∈ p.columns) (new : c ∉ r.columns)
    (lt : c < m.size) (above : m.columnHeader.get (m.vertical.prev.get c) = c) :
    (Matrix.addEntry r.number m c).Holds (p.add (r.extend c)) := by
  have lastRow := holds.rows r (by simp [Problem.add])
  have inRow : (m.addNode none).Row r.number r.nodes := lastRow.row.addNode
  have same : (p.add (r.extend c)).choices.map Choice.number
      = (p.add r).choices.map Choice.number := by
    simp [Problem.add, Choice.extend]
  refine ⟨holds.columns, by rw [same]; exact holds.numbers, fun s hs => ?_⟩
  rcases List.mem_append.1 hs with hs | hs
  · have row := holds.rows s (List.mem_append_left _ hs)
    exact (row.addNode.insertLeft inRow (holds.number_ne_last hs)
      row.row.size_not_mem).insertUp row.row.size_not_mem c
  · obtain rfl := List.mem_singleton.1 hs
    exact lastRow.addEntry last mem new lt above

/-- A new entry of the last row, which is the row with the highest numbers. -/
theorem Uncovered.addEntry (h : m.Uncovered (p.add r))
    (last : m.size = r.number + 1 + r.columns.length) (mem : c ∈ p.columns) (new : c ∉ r.columns) :
    (Matrix.addEntry r.number m c).Uncovered (p.add (r.extend c)) := by
  have inLast : r ∈ (p.add r).choices := by simp [Problem.add]
  have lastRow := h.holds.rows r inLast
  have lt : m.size < (m.addNode none).size := by simp
  have numbers := h.holds.numbers
  have same : (p.add (r.extend c)).choices.map Choice.number
      = (p.add r).choices.map Choice.number := by
    simp [Problem.add, Choice.extend]
  have column := h.columns c mem
  have above := column.header _ (column.ring.prev_mem List.mem_cons_self)
  have inRow : (m.addNode none).Row r.number r.nodes := lastRow.row.addNode
  have inColumn : ((m.addNode none).insertLeft r.number m.size).Column c ((p.add r).entries c) :=
    column.addNode.insertLeft ..
  -- The other rings keep away from both places at which the node is inserted.
  have otherRow : ∀ {k ys}, m.Row k ys → k ≠ r.number →
      (Matrix.addEntry r.number m c).Row k ys := fun row ne =>
    (inRow.insertLeft_other row.addNode ne row.size_not_mem).insertUp ..
  have otherColumn : ∀ {d ys}, m.Column d ys → d ≠ c →
      (Matrix.addEntry r.number m c).Column d ys := fun other ne =>
    inColumn.insertUp_other (other.addNode.insertLeft ..) ne other.size_not_mem
  rw [List.nodup_cons, List.nodup_cons, List.mem_cons, not_or] at numbers
  have there : r.number ∈ (p.add r).choices.map Choice.number := List.mem_map_of_mem inLast
  refine ⟨h.holds.addEntry last mem new (h.column_lt mem) above,
    otherRow h.primary fun eq => numbers.1.2 (eq ▸ there),
    otherRow h.secondary fun eq => numbers.2.1 (eq ▸ there), ?_,
    otherColumn h.spare fun eq => h.holds.secondaryRoot_not_mem (eq ▸ mem), ?_,
    (h.tidy.addNode.insertLeft inRow lt).insertUp inColumn lt⟩
  · rw [same]
    exact otherColumn h.rows fun eq => h.holds.primaryRoot_not_mem (eq ▸ mem)
  · intro d hd
    by_cases eq : d = c
    · rw [eq, Problem.entries_extend_self new, ← last]
      exact inColumn.insertUp column.size_not_mem lt
    · rw [Problem.entries_extend_of_ne eq]
      exact otherColumn (h.columns d hd) eq

/-! ## The entries of a row -/

/-- What a new entry of the last row keeps is kept when all its entries are added in order. -/
theorem addEntries_induction {motive : Mesh → Choice Nat → Prop} {columns : List Nat}
    (step : ∀ {m : Mesh} {r : Choice Nat} {c : Nat}, motive m r →
      m.size = r.number + 1 + r.columns.length → c ∈ p.columns → c ∉ r.columns →
      motive (Matrix.addEntry r.number m c) (r.extend c))
    (h : motive m r) (last : m.size = r.number + 1 + r.columns.length)
    (declared : ∀ c ∈ columns, c ∈ p.columns) (nodup : (r.columns ++ columns).Nodup) :
    motive (columns.foldl (Matrix.addEntry r.number) m) ⟨r.number, r.name, r.columns ++ columns⟩ := by
  induction columns generalizing m r with
  | nil => simpa using h
  | cons c columns ih =>
    have next : (Matrix.addEntry r.number m c).size = m.size + 1 := size_addNode m none
    have new : c ∉ r.columns := fun mem =>
      (List.nodup_append.1 nodup).2.2 c mem c List.mem_cons_self rfl
    have first := step h last (declared c List.mem_cons_self) new
    have rest := ih (r := r.extend c) first
      (by rw [next, last, Choice.extend, List.length_append]; rfl)
      (fun d mem => declared d (List.mem_cons_of_mem _ mem)) (by simpa [Choice.extend] using nodup)
    simpa [Choice.extend] using rest

/-- A row is its header and then one node for each column, at the end of the arena. -/
theorem labels_addRowMesh (m : Mesh) (name : String) (columns : List Nat) :
    (Matrix.addRowMesh m name columns).labels.toList
      = m.labels.toList ++ some name :: List.replicate columns.length none := by
  have entries : ∀ m' : Mesh, (columns.foldl (Matrix.addEntry m.size) m').labels.toList
      = m'.labels.toList ++ List.replicate columns.length none := by
    induction columns with
    | nil => exact fun m' => (List.append_nil _).symm
    | cons c columns ih =>
      intro m'
      have one : (Matrix.addEntry m.size m' c).labels.toList = m'.labels.toList ++ [none] :=
        Array.toList_push
      rw [List.foldl_cons, ih, one, List.append_assoc, List.length_cons, List.replicate_succ]
      rfl
  have header : ((m.addNode (some name)).insertUp primaryRoot m.size).labels.toList
      = m.labels.toList ++ [some name] := Array.toList_push
  rw [Matrix.addRowMesh, entries, header, List.append_assoc]
  rfl

/-- A row with its entries. -/
theorem Uncovered.addRowMesh {columns : List Nat} (h : m.Uncovered p)
    (declared : ∀ c ∈ columns, c ∈ p.columns) (nodup : columns.Nodup) :
    (Matrix.addRowMesh m name columns).Uncovered (p.add ⟨m.size, name, columns⟩) := by
  have size : ((m.addNode (some name)).insertUp primaryRoot m.size).size = m.size + 1 :=
    size_addNode ..
  have entries := addEntries_induction (motive := fun m r => m.Uncovered (p.add r))
    (fun h last mem new => h.addEntry last mem new) (h.addRow name) size declared
    (by simpa using nodup)
  exact entries

/-- The root of the rows counts the new row, and every column the nodes that the row has there. -/
theorem Uncovered.count_addRowMesh {columns : List Nat} (h : m.Uncovered p)
    (declared : ∀ c ∈ columns, c ∈ p.columns) (nodup : columns.Nodup) (x : Nat) :
    (Matrix.addRowMesh m name columns).count x
      = m.count x + ((primaryRoot :: columns).count x : Int) := by
  have size : ((m.addNode (some name)).insertUp primaryRoot m.size).size = m.size + 1 :=
    size_addNode ..
  have header : ∀ x, ((m.addNode (some name)).insertUp primaryRoot m.size).count x
      = m.count x + ([primaryRoot].count x : Int) := h.rows.addNode.count_insertUp_eq_add m.size
  have entries := addEntries_induction (motive := fun m' r => m'.Uncovered (p.add r) ∧
      ∀ x, m'.count x = m.count x + ((primaryRoot :: r.columns).count x : Int))
    (fun {m' r c} h' last mem new => ⟨h'.1.addEntry last mem new, fun x => ?_⟩) ⟨h.addRow name, header⟩
    size declared (by simpa using nodup)
  · exact entries.2 x
  · have column : ((m'.addNode none).insertLeft r.number m'.size).Column c ((p.add r).entries c) :=
      (h'.1.columns c mem).addNode.insertLeft ..
    calc (Matrix.addEntry r.number m' c).count x
        = m'.count x + ([c].count x : Int) := column.count_insertUp_eq_add m'.size x
      _ = m.count x + ((primaryRoot :: r.columns ++ [c]).count x : Int) := by
        rw [h'.2, List.count_append, Int.natCast_add, Int.add_assoc]

end DancingLinks.Mesh
