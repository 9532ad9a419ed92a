import DancingLinks.Proofs.Mesh.Building
import DancingLinks.Proofs.Mesh.Confined

/-!
# The frame of a mesh

What a mesh keeps whatever is done to its links. `Mesh.Remains` says that every node is still there
with its label and its headers. `Mesh.Framed` says that the nodes are those of a problem: the roots,
the headers of the columns, and for every choice the row with its nodes in order. A row keeps its links
because columns are taken out of the rings at the roots, and no link leads from there into a row
(`Mesh.Confined`).
-/

namespace DancingLinks.Mesh

open DancingLinks.Matrix (primaryRoot secondaryRoot)

variable {m m' : Mesh} {p : Problem Nat} {r s : Choice Nat} {c x y : Nat} {name : String}

/-! ## What is never lost -/

/-- Every node of the first mesh is a node of the second, with the same label and headers. -/
structure Remains (m m' : Mesh) : Prop where
  size : m.size ≤ m'.size
  label : ∀ x < m.size, m'.label? x = m.label? x
  rowHeader : ∀ x < m.size, m'.rowHeader.get x = m.rowHeader.get x
  columnHeader : ∀ x < m.size, m'.columnHeader.get x = m.columnHeader.get x

theorem Remains.refl (m : Mesh) : m.Remains m :=
  ⟨Nat.le_refl _, fun _ _ => rfl, fun _ _ => rfl, fun _ _ => rfl⟩

theorem Remains.trans {m'' : Mesh} (h : m.Remains m') (h' : m'.Remains m'') : m.Remains m'' where
  size := Nat.le_trans h.size h'.size
  label x lt := (h'.label x (Nat.lt_of_lt_of_le lt h.size)).trans (h.label x lt)
  rowHeader x lt := (h'.rowHeader x (Nat.lt_of_lt_of_le lt h.size)).trans (h.rowHeader x lt)
  columnHeader x lt :=
    (h'.columnHeader x (Nat.lt_of_lt_of_le lt h.size)).trans (h.columnHeader x lt)

theorem remains_hide (m : Mesh) (c : Nat) (nodes : List Nat) : m.Remains (m.hide c nodes) :=
  ⟨by simp, fun _ _ => by simp [label?], fun _ _ => by simp, fun _ _ => by simp⟩

theorem remains_reveal (m : Mesh) (c : Nat) (nodes : List Nat) : m.Remains (m.reveal c nodes) :=
  ⟨by simp, fun _ _ => by simp [label?], fun _ _ => by simp, fun _ _ => by simp⟩

/-- A row header is a new node. -/
theorem remains_addRow (m : Mesh) (name : String) (c : Nat) :
    m.Remains ((m.addNode (some name)).insertUp c m.size) where
  size := Nat.le_of_lt (by simp)
  label _ lt := label?_addNode lt
  rowHeader _ _ := rfl
  columnHeader _ lt := (columnHeader_insertUp ..).trans (if_neg (Nat.ne_of_lt lt))

/-- An entry is a new node. -/
theorem remains_addEntry (m : Mesh) (row c : Nat) : m.Remains (Matrix.addEntry row m c) where
  size := Nat.le_of_lt (by simp [Matrix.addEntry])
  label _ lt := label?_addNode lt
  rowHeader x lt :=
    calc (Matrix.addEntry row m c).rowHeader.get x
        = ((m.addNode none).insertLeft row m.size).rowHeader.get x := rfl
      _ = m.rowHeader.get x := by rw [rowHeader_insertLeft, if_neg (Nat.ne_of_lt lt)]; rfl
  columnHeader _ lt := (columnHeader_insertUp ..).trans (if_neg (Nat.ne_of_lt lt))

/-- A row is made of new nodes. -/
theorem remains_addRowMesh (m : Mesh) (name : String) (columns : List Nat) :
    m.Remains (Matrix.addRowMesh m name columns) := by
  have entries : ∀ m' : Mesh, m'.Remains (columns.foldl (Matrix.addEntry m.size) m') := by
    induction columns with
    | nil => exact .refl
    | cons c columns ih => exact fun m' => (remains_addEntry m' m.size c).trans (ih _)
  exact (remains_addRow m name primaryRoot).trans (entries _)

/-- Labels are read as texts. -/
theorem Remains.labelText (h : m.Remains m') (lt : x < m.size) : m'.labelText x = m.labelText x := by
  rw [Mesh.labelText, h.label x lt, Mesh.labelText]

/-- The row and the column of a node keep their labels. -/
theorem Remains.headerText (h : m.Remains m') (confined : m.Confined) (lt : x < m.size) :
    m'.labelText (m'.rowHeader.get x) = m.labelText (m.rowHeader.get x) ∧
      m'.labelText (m'.columnHeader.get x) = m.labelText (m.columnHeader.get x) := by
  obtain ⟨row, column⟩ := confined.bound x lt
  rw [h.rowHeader x lt, h.columnHeader x lt]
  exact ⟨h.labelText row, h.labelText column⟩

/-! ## Rows -/

/-- A row does not notice that a node with another row header is taken out, -/
theorem HoldsRow.hide (h : m.HoldsRow p.columns r) (confined : m.Confined)
    (ne : m.rowHeader.get c ≠ r.number) (nodes : List Nat) :
    (m.hide c nodes).HoldsRow p.columns r :=
  ⟨h.row.hide_apart confined ne nodes, h.declared, by rw [labelText_hide, h.label],
    by rw [columnHeader_hide, h.header], by rw [columnHeader_hide]; exact h.entries, h.apart⟩

/-- nor that it is put back. -/
theorem HoldsRow.reveal (h : m.HoldsRow p.columns r) (confined : m.Confined)
    (ne : m.rowHeader.get c ≠ r.number) (nodes : List Nat) :
    (m.reveal c nodes).HoldsRow p.columns r := by
  refine ⟨h.row.reveal_apart confined ne nodes, h.declared, ?_, by rw [columnHeader_reveal, h.header],
    by rw [columnHeader_reveal]; exact h.entries, h.apart⟩
  rw [(remains_reveal m c nodes).labelText (h.row.bound _ List.mem_cons_self), h.label]

/-! ## Meshes with the nodes of a problem -/

/-- The nodes are those of a problem, and links stay within rows and columns. -/
structure Framed (m : Mesh) (p : Problem Nat) : Prop where
  holds : m.Holds p
  confined : m.Confined
  /-- The roots are headers of a row and of a column. -/
  roots : ∀ x ∈ [primaryRoot, secondaryRoot],
    x < m.size ∧ m.rowHeader.get x = x ∧ m.columnHeader.get x = x
  /-- The header of a column hangs in the row of a root. -/
  columns : ∀ c ∈ p.columns,
    c < m.size ∧ m.rowHeader.get c ∈ [primaryRoot, secondaryRoot] ∧ m.columnHeader.get c = c
  /-- There are no other nodes. -/
  all : ∀ x < m.size, x ∈ [primaryRoot, secondaryRoot] ∨ x ∈ p.columns ∨
    ∃ r ∈ p.choices, x ∈ r.number :: r.nodes

/-- A root is the header of no row of a choice. -/
theorem Holds.root_ne_number (holds : m.Holds p) (hr : r ∈ p.choices)
    (root : x ∈ [primaryRoot, secondaryRoot]) : x ≠ r.number := by
  have numbers := holds.numbers
  rw [List.nodup_cons, List.nodup_cons, List.mem_cons, not_or] at numbers
  have there : r.number ∈ p.choices.map Choice.number := List.mem_map_of_mem hr
  simp only [List.mem_cons, List.not_mem_nil, or_false] at root
  rcases root with rfl | rfl
  · exact fun eq => numbers.1.2 (eq ▸ there)
  · exact fun eq => numbers.2.1 (eq ▸ there)

/-- Taking a column header and any nodes out keeps the frame. -/
theorem Framed.hide (framed : m.Framed p) (mem : c ∈ p.columns) (nodes : List Nat) :
    (m.hide c nodes).Framed p where
  holds := ⟨framed.holds.columns, framed.holds.numbers, fun r hr =>
    (framed.holds.rows r hr).hide framed.confined
      (framed.holds.root_ne_number hr (framed.columns c mem).2.1) nodes⟩
  confined := framed.confined.hide c nodes
  roots := by simpa using framed.roots
  columns := by simpa using framed.columns
  all := by simpa using framed.all

/-- Putting a column header and any nodes back keeps the frame. -/
theorem Framed.reveal (framed : m.Framed p) (mem : c ∈ p.columns) (nodes : List Nat) :
    (m.reveal c nodes).Framed p where
  holds := ⟨framed.holds.columns, framed.holds.numbers, fun r hr =>
    (framed.holds.rows r hr).reveal framed.confined
      (framed.holds.root_ne_number hr (framed.columns c mem).2.1) nodes⟩
  confined := framed.confined.reveal c nodes
  roots := by simpa using framed.roots
  columns := by simpa using framed.columns
  all := by simpa using framed.all

/-- What else has the header of a column as its column header is the entry of a row. -/
theorem Framed.exists_entry (framed : m.Framed p) (mem : c ∈ p.columns) (lt : y < m.size)
    (header : m.columnHeader.get y = c) (ne : y ≠ c) :
    ∃ r ∈ p.choices, c ∈ r.columns ∧ y = r.node c := by
  have rooted : ∀ x ∈ [primaryRoot, secondaryRoot], c ≠ x := by
    rintro x root rfl
    simp only [List.mem_cons, List.not_mem_nil, or_false] at root
    rcases root with rfl | rfl
    · exact framed.holds.primaryRoot_not_mem mem
    · exact framed.holds.secondaryRoot_not_mem mem
  rcases framed.all y lt with root | column | ⟨r, hr, there⟩
  · exact absurd (header.symm.trans (framed.roots y root).2.2) (rooted y root)
  · exact absurd ((framed.columns y column).2.2.symm.trans header) ne
  · have row := framed.holds.rows r hr
    rcases List.mem_cons.1 there with rfl | there
    · exact absurd (header.symm.trans row.header) (rooted _ List.mem_cons_self)
    · obtain ⟨d, hd, rfl⟩ := List.mem_map.1 there
      obtain rfl : d = c := (row.entries d hd).symm.trans header
      exact ⟨r, hr, hd, rfl⟩

/-! ## A new row -/

/-- Old nodes stay nodes of the problem when a node is added. -/
theorem Framed.of_remains {m' : Mesh} {p' : Problem Nat} (framed : m.Framed p)
    (remains : m.Remains m') (size : m'.size = m.size + 1) (holds : m'.Holds p')
    (confined : m'.Confined) (columns : p'.columns = p.columns)
    (kept : ∀ r ∈ p.choices, ∃ r' ∈ p'.choices, ∀ x ∈ r.number :: r.nodes, x ∈ r'.number :: r'.nodes)
    (new : ∃ r ∈ p'.choices, m.size ∈ r.number :: r.nodes) : m'.Framed p' where
  holds := holds
  confined := confined
  roots x root := by
    obtain ⟨lt, row, column⟩ := framed.roots x root
    exact ⟨Nat.lt_of_lt_of_le lt remains.size, (remains.rowHeader x lt).trans row,
      (remains.columnHeader x lt).trans column⟩
  columns c mem := by
    obtain ⟨lt, row, column⟩ := framed.columns c (columns ▸ mem)
    exact ⟨Nat.lt_of_lt_of_le lt remains.size, by rwa [remains.rowHeader c lt],
      (remains.columnHeader c lt).trans column⟩
  all x lt := by
    rw [columns]
    rcases Nat.lt_succ_iff_lt_or_eq.1 (size ▸ lt) with old | rfl
    · rcases framed.all x old with root | column | ⟨r, hr, there⟩
      · exact .inl root
      · exact .inr (.inl column)
      · obtain ⟨r', hr', nodes⟩ := kept r hr
        exact .inr (.inr ⟨r', hr', nodes x there⟩)
    · exact .inr (.inr new)

/-- A new row without entries. -/
theorem Framed.addRow (framed : m.Framed p) (name : String) :
    ((m.addNode (some name)).insertUp primaryRoot m.size).Framed (p.add ⟨m.size, name, []⟩) := by
  obtain ⟨lt, -, root⟩ := framed.roots primaryRoot (by simp)
  obtain ⟨lt', -, -⟩ := framed.roots secondaryRoot (by simp)
  obtain ⟨row, column⟩ := framed.confined.alone
  have holds := framed.holds.addRow name ⟨lt, lt'⟩ (framed.confined.across.ring_nil row)
    ((row _).2 rfl) ((framed.confined.columnHeader_up _).trans root)
  have confined : ((m.addNode (some name)).insertUp primaryRoot m.size).Confined :=
    framed.confined.addNode.insertUp (by rw [size_addNode]; omega) (by simp) column
  refine framed.of_remains (remains_addRow m name _) (size_addNode ..) holds confined rfl
    (fun r hr => ⟨r, List.mem_append_left _ hr, fun x mem => mem⟩) ?_
  exact ⟨_, List.mem_append_right _ List.mem_cons_self, List.mem_cons_self⟩

/-- A new entry of the last row. -/
theorem Framed.addEntry (framed : m.Framed (p.add r))
    (last : m.size = r.number + 1 + r.columns.length) (mem : c ∈ p.columns) (new : c ∉ r.columns) :
    (Matrix.addEntry r.number m c).Framed (p.add (r.extend c)) := by
  obtain ⟨lt, -, header⟩ := framed.columns c mem
  obtain ⟨row, column⟩ := framed.confined.alone
  have inLast : r ∈ (p.add r).choices := by simp [Problem.add]
  have place := (framed.holds.rows r inLast).row.bound _ List.mem_cons_self
  have holds := framed.holds.addEntry last mem new lt ((framed.confined.columnHeader_up _).trans header)
  have beside : ((m.addNode none).insertLeft r.number m.size).Confined :=
    framed.confined.addNode.insertLeft (by rw [size_addNode]; omega) (by simp) row
  have confined : (Matrix.addEntry r.number m c).Confined :=
    beside.insertUp (by simp only [size_insertLeft, size_addNode]; omega) (by simp) column
  refine framed.of_remains (remains_addEntry m _ c) (size_addNode ..) holds confined rfl ?_ ?_
  · intro s hs
    rcases List.mem_append.1 hs with hs | hs
    · exact ⟨s, List.mem_append_left _ hs, fun x there => there⟩
    · obtain rfl := List.mem_singleton.1 hs
      refine ⟨s.extend c, List.mem_append_right _ List.mem_cons_self, fun x there => ?_⟩
      have longer : s.number :: (s.extend c).nodes
          = s.number :: s.nodes ++ [s.number + 1 + s.columns.length] := by
        rw [Choice.nodes_extend new, List.cons_append]
      exact longer ▸ List.mem_append_left _ there
  · refine ⟨r.extend c, List.mem_append_right _ List.mem_cons_self, ?_⟩
    rw [Choice.nodes_extend new, ← last]
    simp

/-- A row with its entries. -/
theorem Framed.addRowMesh {columns : List Nat} (framed : m.Framed p)
    (declared : ∀ c ∈ columns, c ∈ p.columns) (nodup : columns.Nodup) :
    (Matrix.addRowMesh m name columns).Framed (p.add ⟨m.size, name, columns⟩) := by
  have size : ((m.addNode (some name)).insertUp primaryRoot m.size).size = m.size + 1 :=
    size_addNode ..
  have entries := addEntries_induction (motive := fun m r => m.Framed (p.add r))
    (fun h last mem new => h.addEntry last mem new) (framed.addRow name) size declared
    (by simpa using nodup)
  exact entries

/-! ## Columns without rows -/

/-- New column headers keep links within rows and columns. -/
theorem Confined.addHeaders {root : Nat} (confined : m.Confined) (lt : root < m.size)
    (names : List String) : (names.foldl (Matrix.addHeader root) m).Confined := by
  induction names generalizing m with
  | nil => exact confined
  | cons name names ih =>
    have next : (Matrix.addHeader root m name).size = m.size + 1 := size_addNode ..
    have step : (Matrix.addHeader root m name).Confined :=
      confined.addNode.insertLeft (by rw [size_addNode]; omega) (by simp) confined.alone.1
    exact ih step (by omega)

/-- A mesh with all columns uncovered has the frame of its problem when there are no other nodes. -/
theorem Uncovered.framed (h : m.Uncovered p) (confined : m.Confined)
    (all : ∀ x < m.size, x ∈ [primaryRoot, secondaryRoot] ∨ x ∈ p.columns ∨
      ∃ r ∈ p.choices, x ∈ r.number :: r.nodes) : m.Framed p where
  holds := h.holds
  confined := confined
  roots := by
    refine List.forall_mem_cons.2 ⟨⟨h.primaryRoot_lt, ?_, ?_⟩,
      List.forall_mem_singleton.2 ⟨h.secondaryRoot_lt, ?_, ?_⟩⟩
    · exact h.primary.header _ List.mem_cons_self
    · exact h.rows.header _ List.mem_cons_self
    · exact h.secondary.header _ List.mem_cons_self
    · exact h.spare.header _ List.mem_cons_self
  columns c mem := by
    refine ⟨h.column_lt mem, ?_, (h.columns c mem).header c List.mem_cons_self⟩
    rcases List.mem_append.1 mem with there | there
    · rw [h.primary.header c (List.mem_cons_of_mem _ there)]
      exact List.mem_cons_self
    · rw [h.secondary.header c (List.mem_cons_of_mem _ there)]
      exact List.mem_cons_of_mem _ List.mem_cons_self
  all := all

end DancingLinks.Mesh
