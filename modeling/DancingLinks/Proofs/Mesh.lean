import DancingLinks.Mesh
import DancingLinks.Proofs.Rings

/-!
# Rows and columns of a mesh

`Mesh.Row` and `Mesh.Column` say which nodes a header has in its horizontal or vertical ring, that
these nodes know their header, and for a column that the header counts them. Two rows with different
headers share no node, so what happens to one of them does not touch the other.

A node is `Live` when it is in the column of its header. Live nodes may be taken out one after the
other, and every column is left without those that were its own (`Column.unlinkEach`). Putting them
back in reverse order restores the mesh (`relinkEach_unlinkEach`). Meshes are compared by `Alike`,
which asks for the same links, headers, counts and labels at every node.
-/

namespace DancingLinks.Mesh

variable {m m' : Mesh} {c d h x y : Nat} {xs ys : List Nat}

/-! ## Meshes that are linked alike -/

/-- The same labels, links, headers and counts at every node, however they are stored. -/
structure Alike (m m' : Mesh) : Prop where
  labels : m.labels = m'.labels
  horizontal : m.horizontal.Alike m'.horizontal
  vertical : m.vertical.Alike m'.vertical
  rowHeader : m.rowHeader.get = m'.rowHeader.get
  columnHeader : m.columnHeader.get = m'.columnHeader.get
  counts : m.counts.get = m'.counts.get

theorem Alike.refl (m : Mesh) : m.Alike m := ⟨rfl, .refl _, .refl _, rfl, rfl, rfl⟩

theorem Alike.symm (h : m.Alike m') : m'.Alike m :=
  ⟨h.labels.symm, h.horizontal.symm, h.vertical.symm, h.rowHeader.symm, h.columnHeader.symm,
    h.counts.symm⟩

theorem Alike.trans {m'' : Mesh} (h : m.Alike m') (h' : m'.Alike m'') : m.Alike m'' :=
  ⟨h.labels.trans h'.labels, h.horizontal.trans h'.horizontal, h.vertical.trans h'.vertical,
    h.rowHeader.trans h'.rowHeader, h.columnHeader.trans h'.columnHeader,
    h.counts.trans h'.counts⟩

theorem Alike.size (h : m.Alike m') : m.size = m'.size := by rw [Mesh.size, h.labels, Mesh.size]

theorem Alike.label? (h : m.Alike m') : m.label? = m'.label? := by
  funext x; rw [Mesh.label?, h.labels, Mesh.label?]

theorem Alike.labelText (h : m.Alike m') : m.labelText = m'.labelText := by
  funext x; rw [Mesh.labelText, h.label?, Mesh.labelText]

theorem Alike.neighbor (h : m.Alike m') : m.neighbor = m'.neighbor := by
  funext d x
  cases d with
  | up => exact congrFun h.vertical.prev x
  | down => exact congrFun h.vertical.next x
  | left => exact congrFun h.horizontal.prev x
  | right => exact congrFun h.horizontal.next x

theorem Alike.count (h : m.Alike m') : m.count = m'.count := by
  funext x; exact congrFun h.counts x

theorem Alike.nodesAfter (h : m.Alike m') : m.nodesAfter = m'.nodesAfter := by
  funext d x; rw [Mesh.nodesAfter, h.neighbor, h.size, Mesh.nodesAfter]

theorem Alike.unlinkHorizontal (h : m.Alike m') (x : Nat) :
    (m.unlinkHorizontal x).Alike (m'.unlinkHorizontal x) :=
  { h with horizontal := h.horizontal.unlink x }

theorem Alike.relinkHorizontal (h : m.Alike m') (x : Nat) :
    (m.relinkHorizontal x).Alike (m'.relinkHorizontal x) :=
  { h with horizontal := h.horizontal.relink x }

theorem Alike.unlinkVertical (h : m.Alike m') (x : Nat) :
    (m.unlinkVertical x).Alike (m'.unlinkVertical x) := by
  refine { h with vertical := h.vertical.unlink x, counts := ?_ }
  funext y
  simp only [Mesh.unlinkVertical, Table.get_set, h.columnHeader, h.counts]

theorem Alike.relinkVertical (h : m.Alike m') (x : Nat) :
    (m.relinkVertical x).Alike (m'.relinkVertical x) := by
  refine { h with vertical := h.vertical.relink x, counts := ?_ }
  funext y
  simp only [Mesh.relinkVertical, Table.get_set, h.columnHeader, h.counts]

/-! ## Rows and columns -/

/-- The row of a header: its ring, whose nodes know it. -/
structure Row (m : Mesh) (h : Nat) (xs : List Nat) : Prop where
  ring : m.horizontal.Ring h xs
  header : ∀ x ∈ h :: xs, m.rowHeader.get x = h
  bound : ∀ x ∈ h :: xs, x < m.size

/-- The column of a header: its ring, whose nodes know it, and their number. -/
structure Column (m : Mesh) (c : Nat) (xs : List Nat) : Prop where
  ring : m.vertical.Ring c xs
  header : ∀ x ∈ c :: xs, m.columnHeader.get x = c
  bound : ∀ x ∈ c :: xs, x < m.size
  count : m.count c = xs.length

/-- A ring of allocated nodes is shorter than the arena. -/
theorem length_lt_size (nodup : (x :: xs).Nodup) (bound : ∀ y ∈ x :: xs, y < m.size) :
    xs.length < m.size := by
  have sub : x :: xs ⊆ List.range m.size := fun y mem => List.mem_range.2 (bound y mem)
  have := nodup.length_le_of_subset sub
  rwa [List.length_range] at this

/-- The nodes to the right in a horizontal ring. -/
theorem nodesAfter_right (ring : m.horizontal.Ring x xs) (bound : ∀ y ∈ x :: xs, y < m.size) :
    m.nodesAfter .right x = some xs :=
  ring.walk_next (length_lt_size ring.nodup bound)

/-- The nodes to the left in a horizontal ring. -/
theorem nodesAfter_left (ring : m.horizontal.Ring x xs) (bound : ∀ y ∈ x :: xs, y < m.size) :
    m.nodesAfter .left x = some xs.reverse :=
  ring.walk_prev (length_lt_size ring.nodup bound)

/-- The nodes down a column. -/
theorem Column.nodesAfter_down (h : m.Column c xs) : m.nodesAfter .down c = some xs :=
  h.ring.walk_next (length_lt_size h.ring.nodup h.bound)

/-- The nodes up a column. -/
theorem Column.nodesAfter_up (h : m.Column c xs) : m.nodesAfter .up c = some xs.reverse :=
  h.ring.walk_prev (length_lt_size h.ring.nodup h.bound)

/-- A row may be read from any of its nodes. -/
theorem Row.exists_walks (mem : x ∈ h :: xs) : ∃ ys, (∀ y ∈ ys, y ∈ h :: xs) ∧
    ∀ m : Mesh, m.Row h xs →
      m.nodesAfter .right x = some ys ∧ m.nodesAfter .left x = some ys.reverse := by
  obtain ⟨as, bs, same, rotated⟩ := Rings.Ring.exists_rotation mem
  refine ⟨as ++ bs, fun y mem => same.mem_iff.1 (List.mem_cons_of_mem _ mem), fun m row => ?_⟩
  have ring := rotated m.horizontal [] (by rw [List.append_nil]; exact row.ring)
  rw [List.append_nil] at ring
  have bound : ∀ y ∈ x :: (as ++ bs), y < m.size := fun y mem => row.bound y (same.mem_iff.1 mem)
  exact ⟨nodesAfter_right ring bound, nodesAfter_left ring bound⟩

/-- A column may be read from any of its nodes. What is put at its end is met at one place. -/
theorem Column.exists_walks (mem : x ∈ c :: xs) : ∃ as bs, (∀ y ∈ as ++ bs, y ∈ c :: xs) ∧
    ∀ (m : Mesh) (zs : List Nat), m.Column c (xs ++ zs) →
      m.nodesAfter .down x = some (as ++ zs ++ bs) ∧
        m.nodesAfter .up x = some (as ++ zs ++ bs).reverse := by
  obtain ⟨as, bs, same, rotated⟩ := Rings.Ring.exists_rotation mem
  refine ⟨as, bs, fun y mem => same.mem_iff.1 (List.mem_cons_of_mem _ mem), fun m zs column => ?_⟩
  have ring := rotated m.vertical zs column.ring
  have bound : ∀ y ∈ x :: (as ++ zs ++ bs), y < m.size := fun y mem => by
    have here : y ∈ x :: (as ++ bs) ∨ y ∈ zs := by
      simp only [List.mem_cons, List.mem_append] at mem ⊢
      grind
    refine column.bound y ?_
    rcases here with old | new
    · exact List.cons_append .. ▸ List.mem_append_left zs (same.mem_iff.1 old)
    · exact List.mem_cons_of_mem _ (List.mem_append_right xs new)
  have enough := length_lt_size ring.nodup bound
  exact ⟨ring.walk_next enough, ring.walk_prev enough⟩

/-- A header has one column. -/
theorem Column.unique (h : m.Column c xs) (h' : m.Column c ys) : xs = ys :=
  Option.some.inj (h.nodesAfter_down.symm.trans h'.nodesAfter_down)

theorem Row.congr (row : m.Row h xs) (alike : m.Alike m') : m'.Row h xs :=
  ⟨row.ring.congr alike.horizontal, by simpa only [alike.rowHeader] using row.header,
    by simpa only [alike.size] using row.bound⟩

theorem Column.congr (column : m.Column c xs) (alike : m.Alike m') : m'.Column c xs :=
  ⟨column.ring.congr alike.vertical, by simpa only [alike.columnHeader] using column.header,
    by simpa only [alike.size] using column.bound, by simpa only [alike.count] using column.count⟩

/-! ## Taking nodes out -/

/-- The node is in the column of its header. -/
def Live (m : Mesh) (y : Nat) : Prop := ∃ ys, m.Column (m.columnHeader.get y) ys ∧ y ∈ ys

theorem Live.linked (live : m.Live y) : m.vertical.Linked y := by
  obtain ⟨ys, column, mem⟩ := live
  exact column.ring.linked (List.mem_cons_of_mem _ mem)

/-- A live node is the header of no column. -/
theorem Live.ne_header (live : m.Live y) (column : m.Column c xs) : y ≠ c := by
  rintro rfl
  obtain ⟨ys, own, mem⟩ := live
  rw [column.header y List.mem_cons_self] at own
  exact own.ring.start_not_mem mem

/-- A live node is in the column that its header names, and in no other. -/
theorem Live.mem_iff (live : m.Live y) (column : m.Column c xs) :
    y ∈ xs ↔ m.columnHeader.get y = c := by
  constructor
  · exact fun mem => column.header y (List.mem_cons_of_mem _ mem)
  · rintro rfl
    obtain ⟨ys, own, mem⟩ := live
    exact column.unique own ▸ mem

/-- A column without a node that is taken out. -/
theorem Column.unlinkVertical (column : m.Column c xs) (live : m.Live y) :
    (m.unlinkVertical y).Column c (xs.filter (· ≠ y)) := by
  have sub : ∀ x ∈ c :: xs.filter (· ≠ y), x ∈ c :: xs := fun x mem =>
    (List.mem_cons.1 mem).elim (fun eq => eq ▸ List.mem_cons_self) fun mem =>
      List.mem_cons_of_mem _ (List.mem_filter.1 mem).1
  refine ⟨column.ring.unlink live.linked (live.ne_header column),
    fun x mem => column.header x (sub x mem), fun x mem => column.bound x (sub x mem), ?_⟩
  have counts : (m.unlinkVertical y).count c
      = if c = m.columnHeader.get y then m.count (m.columnHeader.get y) - 1 else m.count c :=
    Table.get_set ..
  rw [counts]
  have nodup := (List.nodup_cons.1 column.ring.nodup).2
  split
  · next own =>
    have mem : y ∈ xs := (live.mem_iff column).2 own.symm
    have pos : 0 < xs.length := List.length_pos_of_mem mem
    have erase : xs.filter (· ≠ y) = xs.erase y := by
      rw [nodup.erase_eq_filter]
      exact List.filter_congr fun x _ => by rw [Bool.eq_iff_iff]; simp
    rw [← own, column.count, erase, List.length_erase_of_mem mem]
    omega
  · next other =>
    have notMem : y ∉ xs := fun mem => other ((live.mem_iff column).1 mem).symm
    rw [List.filter_eq_self.2 fun x mem => by simpa using fun eq : x = y => notMem (eq ▸ mem)]
    exact column.count

/-- A live node stays live when another one is taken out. -/
theorem Live.unlinkVertical (hx : m.Live x) (hy : m.Live y) (ne : x ≠ y) :
    (m.unlinkVertical y).Live x := by
  obtain ⟨ys, column, mem⟩ := hx
  exact ⟨_, column.unlinkVertical hy, List.mem_filter.2 ⟨mem, by simpa using ne⟩⟩

/-- Takes nodes out of their columns, one after the other. -/
def unlinkEach (m : Mesh) (nodes : List Nat) : Mesh := nodes.foldl Mesh.unlinkVertical m

/-- Puts nodes back into their columns, one after the other. -/
def relinkEach (m : Mesh) (nodes : List Nat) : Mesh := nodes.foldl Mesh.relinkVertical m

@[simp] theorem unlinkEach_nil (m : Mesh) : m.unlinkEach [] = m := rfl

@[simp] theorem unlinkEach_cons (m : Mesh) (y : Nat) (ys : List Nat) :
    m.unlinkEach (y :: ys) = (m.unlinkVertical y).unlinkEach ys := rfl

/-- Only vertical links and counts change when nodes are taken out of their columns. -/
theorem unlinkEach_frame (m : Mesh) (nodes : List Nat) :
    (m.unlinkEach nodes).labels = m.labels ∧ (m.unlinkEach nodes).horizontal = m.horizontal ∧
      (m.unlinkEach nodes).rowHeader = m.rowHeader ∧
      (m.unlinkEach nodes).columnHeader = m.columnHeader := by
  induction nodes generalizing m with
  | nil => exact ⟨rfl, rfl, rfl, rfl⟩
  | cons y ys ih => exact ih (m.unlinkVertical y)

theorem Row.unlinkEach (row : m.Row h xs) (nodes : List Nat) : (m.unlinkEach nodes).Row h xs := by
  obtain ⟨labels, horizontal, rowHeader, -⟩ := m.unlinkEach_frame nodes
  refine ⟨by rw [horizontal]; exact row.ring, by rw [rowHeader]; exact row.header, ?_⟩
  rw [Mesh.size, labels]
  exact row.bound

/-- A column without the nodes that are taken out. -/
theorem Column.unlinkEach (column : m.Column c xs) (nodup : ys.Nodup)
    (live : ∀ y ∈ ys, m.Live y) : (m.unlinkEach ys).Column c (xs.filter (· ∉ ys)) := by
  induction ys generalizing m xs with
  | nil => simpa [List.filter_eq_self.2] using column
  | cons y ys ih =>
    obtain ⟨notMem, nodup⟩ := List.nodup_cons.1 nodup
    have first := live y List.mem_cons_self
    have rest : ∀ z ∈ ys, (m.unlinkVertical y).Live z := fun z mem =>
      (live z (List.mem_cons_of_mem _ mem)).unlinkVertical first fun eq => notMem (eq ▸ mem)
    have := ih (column.unlinkVertical first) nodup rest
    have twice : (xs.filter (· ≠ y)).filter (· ∉ ys) = xs.filter (· ∉ y :: ys) := by
      rw [List.filter_filter]
      exact List.filter_congr fun x _ => by simp [Bool.and_comm]
    rwa [twice] at this

theorem Alike.relinkEach (h : m.Alike m') (nodes : List Nat) :
    (m.relinkEach nodes).Alike (m'.relinkEach nodes) := by
  induction nodes generalizing m m' with
  | nil => exact h
  | cons y ys ih => exact ih (h.relinkVertical y)

/-- Putting a node back into its column right after it was taken out restores the mesh. -/
theorem relinkVertical_unlinkVertical (linked : m.vertical.Linked y) :
    ((m.unlinkVertical y).relinkVertical y).Alike m := by
  refine { Alike.refl m with vertical := linked.relink_unlink, counts := ?_ }
  funext x
  simp only [Mesh.relinkVertical, Mesh.unlinkVertical, Table.get_set]
  split
  · next eq => simp [eq]
  · rfl

/-- Putting a node back into its row right after it was taken out restores the mesh. -/
theorem relinkHorizontal_unlinkHorizontal (linked : m.horizontal.Linked y) :
    ((m.unlinkHorizontal y).relinkHorizontal y).Alike m :=
  { Alike.refl m with horizontal := linked.relink_unlink }

/-- Putting nodes back in the reverse order restores the mesh. -/
theorem relinkEach_unlinkEach (nodup : ys.Nodup) (live : ∀ y ∈ ys, m.Live y) :
    ((m.unlinkEach ys).relinkEach ys.reverse).Alike m := by
  induction ys generalizing m with
  | nil => exact .refl m
  | cons y ys ih =>
    obtain ⟨notMem, nodup⟩ := List.nodup_cons.1 nodup
    have first := live y List.mem_cons_self
    have rest : ∀ z ∈ ys, (m.unlinkVertical y).Live z := fun z mem =>
      (live z (List.mem_cons_of_mem _ mem)).unlinkVertical first fun eq => notMem (eq ▸ mem)
    have inner := (ih nodup rest).relinkVertical y
    rw [List.reverse_cons, Mesh.relinkEach, List.foldl_append]
    exact inner.trans (relinkVertical_unlinkVertical first.linked)

/-! ## Taking a header out -/

/-- A row without a node that is taken out. -/
theorem Row.unlinkHorizontal (row : m.Row h xs) (linked : m.horizontal.Linked c) (ne : c ≠ h) :
    (m.unlinkHorizontal c).Row h (xs.filter (· ≠ c)) := by
  have sub : ∀ x ∈ h :: xs.filter (· ≠ c), x ∈ h :: xs := fun x mem =>
    (List.mem_cons.1 mem).elim (fun eq => eq ▸ List.mem_cons_self) fun mem =>
      List.mem_cons_of_mem _ (List.mem_filter.1 mem).1
  exact ⟨row.ring.unlink linked ne, fun x mem => row.header x (sub x mem),
    fun x mem => row.bound x (sub x mem)⟩

/-- Columns do not notice a header that leaves its row. -/
theorem Column.unlinkHorizontal (column : m.Column c xs) (x : Nat) :
    (m.unlinkHorizontal x).Column c xs :=
  ⟨column.ring, column.header, column.bound, column.count⟩

theorem Live.unlinkHorizontal (live : m.Live y) (x : Nat) : (m.unlinkHorizontal x).Live y := by
  obtain ⟨ys, column, mem⟩ := live
  exact ⟨ys, column.unlinkHorizontal x, mem⟩

/-- A header taken out of its ring, and then nodes out of their columns. -/
def hide (m : Mesh) (c : Nat) (nodes : List Nat) : Mesh := (m.unlinkHorizontal c).unlinkEach nodes

/-- Nodes put back into their columns, and then a header into its ring. -/
def reveal (m : Mesh) (c : Nat) (nodes : List Nat) : Mesh :=
  (m.relinkEach nodes).relinkHorizontal c

@[simp] theorem labels_hide (m : Mesh) (c : Nat) (nodes : List Nat) :
    (m.hide c nodes).labels = m.labels := (unlinkEach_frame _ nodes).1

@[simp] theorem horizontal_hide (m : Mesh) (c : Nat) (nodes : List Nat) :
    (m.hide c nodes).horizontal = m.horizontal.unlink c := (unlinkEach_frame _ nodes).2.1

@[simp] theorem rowHeader_hide (m : Mesh) (c : Nat) (nodes : List Nat) :
    (m.hide c nodes).rowHeader = m.rowHeader := (unlinkEach_frame _ nodes).2.2.1

@[simp] theorem columnHeader_hide (m : Mesh) (c : Nat) (nodes : List Nat) :
    (m.hide c nodes).columnHeader = m.columnHeader := (unlinkEach_frame _ nodes).2.2.2

@[simp] theorem labelText_hide (m : Mesh) (c : Nat) (nodes : List Nat) :
    (m.hide c nodes).labelText = m.labelText := by
  funext x; rw [labelText, label?, labels_hide, labelText, label?]

theorem labels_relinkEach (m : Mesh) (nodes : List Nat) :
    (m.relinkEach nodes).labels = m.labels := by
  induction nodes generalizing m with
  | nil => rfl
  | cons y ys ih => exact ih (m.relinkVertical y)

theorem horizontal_relinkEach (m : Mesh) (nodes : List Nat) :
    (m.relinkEach nodes).horizontal = m.horizontal := by
  induction nodes generalizing m with
  | nil => rfl
  | cons y ys ih => exact ih (m.relinkVertical y)

@[simp] theorem horizontal_reveal (m : Mesh) (c : Nat) (nodes : List Nat) :
    (m.reveal c nodes).horizontal = m.horizontal.relink c :=
  congrArg (Rings.relink · c) (horizontal_relinkEach m nodes)

@[simp] theorem labels_reveal (m : Mesh) (c : Nat) (nodes : List Nat) :
    (m.reveal c nodes).labels = m.labels := labels_relinkEach m nodes

theorem Row.hide (row : m.Row h xs) (linked : m.horizontal.Linked c) (ne : c ≠ h)
    (nodes : List Nat) : (m.hide c nodes).Row h (xs.filter (· ≠ c)) :=
  (row.unlinkHorizontal linked ne).unlinkEach nodes

theorem Column.hide (column : m.Column d xs) (nodup : ys.Nodup) (live : ∀ y ∈ ys, m.Live y) :
    (m.hide c ys).Column d (xs.filter (· ∉ ys)) :=
  (column.unlinkHorizontal c).unlinkEach nodup fun y mem => (live y mem).unlinkHorizontal c

theorem Alike.reveal (h : m.Alike m') (c : Nat) (nodes : List Nat) :
    (m.reveal c nodes).Alike (m'.reveal c nodes) :=
  (h.relinkEach nodes).relinkHorizontal c

/-- What is put back in the reverse order restores the mesh. -/
theorem reveal_hide (linked : m.horizontal.Linked c) (nodup : ys.Nodup)
    (live : ∀ y ∈ ys, m.Live y) : ((m.hide c ys).reveal c ys.reverse).Alike m := by
  have inner := relinkEach_unlinkEach nodup fun y mem => (live y mem).unlinkHorizontal c
  exact (inner.relinkHorizontal c).trans (relinkHorizontal_unlinkHorizontal linked)

end DancingLinks.Mesh
