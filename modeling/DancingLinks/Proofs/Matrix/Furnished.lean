import DancingLinks.Proofs.Matrix.Names

/-!
# Matrices that keep their nodes

`Matrix.Furnished` says what is true of a matrix however its columns are covered: its nodes are those of
a problem, and its columns bear their names. A matrix without rows is furnished
(`Founded.furnished`), and stays so whether a row is added, a column is covered or a covered column is
uncovered (`Furnished.addRow`, `Furnished.step`), also when that is done in an order that leaves the
links in a muddle. Then a row can be read off the nodes at any time (`Furnished.hasRow`).
-/

namespace DancingLinks

variable {p : Problem Nat} {r : Choice Nat} {c row : Nat} {name : String} {columns : List String}

namespace Matrix

variable {m m' m'' : Matrix} {s : Step}

/-! ## What is never lost -/

/-- The second matrix has the columns of the first, and its nodes with their labels and headers. -/
structure Remains (m m' : Matrix) : Prop where
  mesh : m.mesh.Remains m'.mesh
  primary : m'.primary = m.primary
  secondary : m'.secondary = m.secondary

theorem Remains.refl (m : Matrix) : m.Remains m := ⟨.refl _, rfl, rfl⟩

theorem Remains.trans (h : m.Remains m') (h' : m'.Remains m'') : m.Remains m'' :=
  ⟨h.mesh.trans h'.mesh, h'.primary.trans h.primary, h'.secondary.trans h.secondary⟩

/-- Columns are found at the same headers. -/
theorem Remains.column_eq (h : m.Remains m') : m'.column = m.column := by
  funext name
  rw [column, column?, h.primary, h.secondary, column, column?]

/-- Columns keep their names. -/
theorem Named.of_remains (named : m.Named p) (remains : m.Remains m')
    (bound : ∀ c ∈ p.columns, c < m.mesh.size) : m'.Named p := by
  refine ⟨by rw [remains.primary]; exact named.primary,
    by rw [remains.primary, remains.secondary]; exact named.secondary, ?_, ?_⟩
  · rw [remains.primary, ← named.primaryNames]
    exact List.map_congr_left fun c mem =>
      remains.mesh.labelText (bound c (List.mem_append_left _ mem))
  · rw [remains.secondary, ← named.secondaryNames]
    exact List.map_congr_left fun c mem =>
      remains.mesh.labelText (bound c (List.mem_append_right _ mem))

/-! ## Furnished matrices -/

/-- The nodes of the matrix are those of a problem, and its columns bear their names. -/
structure Furnished (m : Matrix) (p : Problem Nat) : Prop where
  framed : m.mesh.Framed p
  named : m.Named p

theorem Furnished.bound (furnished : m.Furnished p) : ∀ c ∈ p.columns, c < m.mesh.size :=
  fun c mem => (furnished.framed.columns c mem).1

/-- The headers that a row lists are those found for the names. -/
theorem mapM_column_of_resolve {seen headers : List Nat} {names : List String}
    (found : m.resolve name seen names = .ok headers) : names.mapM m.column = .ok headers := by
  induction names generalizing seen headers with
  | nil =>
    cases found
    rfl
  | cons other names ih =>
    obtain ⟨c, first, found⟩ := ok_of_bind found
    split at found
    · cases found
    · obtain ⟨rest, resolved, made⟩ := ok_of_bind found
      cases made
      rw [List.mapM_cons, first, ih resolved]
      rfl

/-- The roots have links within rows and columns, and so have the headers that are added to them. -/
theorem confined_headerMesh (primary secondary : List String) :
    (headerMesh primary secondary).Confined ∧
      (headerMesh primary secondary).size = firstColumn + primary.length + secondary.length := by
  have roots : ((Mesh.empty.addNode (some primaryRootLabel)).addNode
      (some secondaryRootLabel)).Confined := Mesh.confined_empty.addNode.addNode
  have two : ((Mesh.empty.addNode (some primaryRootLabel)).addNode
      (some secondaryRootLabel)).size = firstColumn := rfl
  have first := (Mesh.labelText_addHeaders ((Mesh.empty.addNode (some primaryRootLabel)).addNode
    (some secondaryRootLabel)) primaryRoot primary).2.1
  have second := (Mesh.labelText_addHeaders (primary.foldl (addHeader primaryRoot)
    ((Mesh.empty.addNode (some primaryRootLabel)).addNode (some secondaryRootLabel)))
    secondaryRoot secondary).2.1
  rw [two] at first
  have below : secondaryRoot < (primary.foldl (addHeader primaryRoot)
      ((Mesh.empty.addNode (some primaryRootLabel)).addNode (some secondaryRootLabel))).size := by
    rw [first]
    exact Nat.lt_add_right _ (by decide)
  exact ⟨(roots.addHeaders (by decide) primary).addHeaders below secondary, by rwa [first] at second⟩

/-- The headers found for some names bear these names. -/
theorem Named.map_labelText (named : m.Named p) {names : List String} {headers : List Nat}
    (found : names.mapM m.column = .ok headers) : headers.map m.mesh.labelText = names := by
  induction names generalizing headers with
  | nil =>
    cases found
    rfl
  | cons other names ih =>
    rw [List.mapM_cons] at found
    obtain ⟨c, first, found⟩ := ok_of_bind found
    obtain ⟨rest, others, made⟩ := ok_of_bind found
    cases made
    rw [List.map_cons, (named.of_column first).2, ih others]

/-- The matrix of some columns has no nodes but the roots and the headers. -/
theorem Founded.furnished {primary secondary : List String} (founded : m.Founded p)
    (made : ofColumns primary secondary = .ok m) : m.Furnished p := by
  obtain ⟨confined, size⟩ := confined_headerMesh primary secondary
  unfold ofColumns at made
  split at made
  · cases made
  cases made
  refine ⟨founded.uncovered.framed confined fun x lt => ?_, founded.named⟩
  rcases Nat.lt_or_ge x firstColumn with root | column
  · left
    rw [firstColumn] at root
    simp only [List.mem_cons, List.not_mem_nil, or_false, primaryRoot, secondaryRoot]
    omega
  · refine .inr (.inl (founded.named.isColumn_iff.1 ?_))
    simp only [isColumn, Bool.and_eq_true, decide_eq_true_eq]
    exact ⟨column, size ▸ lt⟩

/-- A new row has nodes of its own. -/
theorem Furnished.addRow (furnished : m.Furnished p) (added : m.addRow name columns = .ok m') :
    m.Remains m' ∧ ∃ headers, columns.mapM m.column = .ok headers ∧
      m'.Furnished (p.add ⟨m.mesh.size, name, headers⟩) := by
  obtain ⟨headers, resolved, made⟩ := ok_of_bind added
  cases made
  obtain ⟨nodup, members, -⟩ := furnished.named.of_resolve resolved
  have remains : m.Remains { m with mesh := addRowMesh m.mesh name headers } :=
    ⟨Mesh.remains_addRowMesh .., rfl, rfl⟩
  have framed : (addRowMesh m.mesh name headers).Framed (p.add ⟨m.mesh.size, name, headers⟩) :=
    furnished.framed.addRowMesh (fun c mem => (members c mem).2) nodup
  have named := furnished.named.of_remains remains furnished.bound
  exact ⟨remains, headers, mapM_column_of_resolve resolved, framed,
    named.primary, named.secondary, named.primaryNames, named.secondaryNames⟩

/-- A matrix that was built for a problem has the nodes of that problem. -/
theorem Built.furnished {q : Problem String} (built : Built m q) : m.Furnished q.numbered := by
  induction built with
  | ofColumns made => exact (Built.ofColumns made).founded_numbered.furnished made
  | @addRow m m' q name columns built added ih =>
    obtain ⟨-, headers, found, furnished⟩ := ih.addRow added
    have same : headers = columns.map q.header :=
      eq_map_of_mapM found fun name _ c here => (built.column_eq_ok_iff.1 here).2.symm
    rw [same] at furnished
    exact (q.numbered_add ⟨m.mesh.size, name, columns⟩).symm ▸ furnished

/-- Covering a column changes nothing but links and counts. -/
theorem Furnished.hide (furnished : m.Furnished p) (mem : c ∈ p.columns) (nodes : List Nat) :
    (m.hide c nodes).Furnished p ∧ m.Remains (m.hide c nodes) := by
  have remains : m.Remains (m.hide c nodes) := ⟨Mesh.remains_hide m.mesh c nodes, rfl, rfl⟩
  exact ⟨⟨furnished.framed.hide mem nodes, furnished.named.of_remains remains furnished.bound⟩,
    remains⟩

/-- Uncovering a column changes nothing but links and counts. -/
theorem Furnished.reveal (furnished : m.Furnished p) (mem : c ∈ p.columns) (nodes : List Nat) :
    (m.reveal c nodes).Furnished p ∧ m.Remains (m.reveal c nodes) := by
  have remains : m.Remains (m.reveal c nodes) := ⟨Mesh.remains_reveal m.mesh c nodes, rfl, rfl⟩
  exact ⟨⟨furnished.framed.reveal mem nodes, furnished.named.of_remains remains furnished.bound⟩,
    remains⟩

/-- Covers and uncovers, in whichever order, change nothing but links and counts. -/
theorem Furnished.step (furnished : m.Furnished p) (done : m.step s = .ok m') :
    m'.Furnished p ∧ m.Remains m' := by
  cases s with
  | cover c =>
    obtain ⟨nodes, plan, made⟩ := ok_of_bind done
    cases made
    exact furnished.hide (furnished.named.isColumn_iff.1 (isColumn_of_coverPlan plan)) nodes
  | uncover c =>
    obtain ⟨nodes, plan, made⟩ := ok_of_bind done
    cases made
    exact furnished.reveal (furnished.named.isColumn_iff.1 (isColumn_of_uncoverPlan plan)) nodes

/-! ## Rows -/

/-- A row as it was added: its name, its nodes in order, and the columns they are in. -/
structure HasRow (m : Matrix) (row : Nat) (name : String) (columns : List String) : Prop where
  name : m.mesh.labelText row = name
  /-- The nodes to the right of the header are one for each column, in the order given. -/
  nodes : m.nodesAfter .right row = .ok (List.range' (row + 1) columns.length)
  rowHeader : ∀ x ∈ row :: List.range' (row + 1) columns.length, m.mesh.rowHeader.get x = row
  /-- The column headers of the nodes are those found for the names of the columns. -/
  columnHeaders : columns.mapM m.column
    = .ok ((List.range' (row + 1) columns.length).map m.mesh.columnHeader.get)
  columnNames : (List.range' (row + 1) columns.length).map
    (fun x => m.mesh.labelText (m.mesh.columnHeader.get x)) = columns

/-- A furnished matrix has the rows of the choices. -/
theorem Furnished.hasRow (furnished : m.Furnished p) (hr : r ∈ p.choices)
    (found : columns.mapM m.column = .ok r.columns) : m.HasRow r.number r.name columns := by
  have holds := furnished.framed.holds.rows r hr
  have names := furnished.named.map_labelText found
  have nodes := Choice.nodes_eq_range' holds.nodup
  rw [← List.length_map m.mesh.labelText, names] at nodes
  have headers : r.nodes.map m.mesh.columnHeader.get = r.columns := by
    rw [Choice.nodes, List.map_map]
    exact (List.map_congr_left holds.entries).trans r.columns.map_id
  refine ⟨holds.label, ?_, ?_, ?_, ?_⟩
  · rw [nodesAfter, Mesh.nodesAfter_right holds.row.ring holds.row.bound, nodes]
  · rw [← nodes]
    exact holds.row.header
  · rw [← nodes, headers, found]
  · calc (List.range' (r.number + 1) columns.length).map
            (fun x => m.mesh.labelText (m.mesh.columnHeader.get x))
        = (r.nodes.map m.mesh.columnHeader.get).map m.mesh.labelText := by
          rw [nodes, List.map_map]
          rfl
      _ = columns := by rw [headers, names]

end Matrix

end DancingLinks
