import DancingLinks.Proofs.Mesh.Insertion

/-!
# Links that stay within rows and columns

Nodes that are put back in another order than that in which they were taken out leave links that make
no rings any more. Yet every horizontal link leads to a node with the same row header, and every
vertical link to one with the same column header (`Mesh.Confined`). Nothing that is done to a mesh
breaks that, since a link is only ever written between the two neighbours of one node. So a walk
meets nodes of one header only (`Confined.of_nodesAfter_down`), and a node that is inserted inherits the
right header from whichever node happens to be beside it (`Confined.rowHeader_left`,
`Confined.columnHeader_up`).
-/

namespace DancingLinks

/-! ## Rings -/

namespace Rings

variable {r r' : Rings} {header header' : Nat → Nat} {a b x y : Nat} {xs : List Nat}

/-- Neighbours have the same header. -/
def Within (r : Rings) (header : Nat → Nat) : Prop :=
  ∀ x, header (r.next.get x) = header x ∧ header (r.prev.get x) = header x

theorem Within.unlink (within : r.Within header) (x : Nat) : (r.unlink x).Within header := by
  intro y
  obtain ⟨next, prev⟩ := within x
  rw [next_unlink, prev_unlink]
  constructor
  · split
    · next before => rw [before, next, prev]
    · exact (within y).1
  · split
    · next after => rw [after, next, prev]
    · exact (within y).2

/-- The node whose successor is written when a node is put back. -/
theorem Within.relinked (within : r.Within header) (x : Nat) :
    header (if x = r.next.get x then x else r.prev.get x) = header x := by
  split
  · rfl
  · exact (within x).2

theorem Within.relink (within : r.Within header) (x : Nat) : (r.relink x).Within header := by
  intro y
  rw [next_relink, prev_relink]
  constructor
  · by_cases before : y = if x = r.next.get x then x else r.prev.get x
    · rw [if_pos before, before, within.relinked]
    · rw [if_neg before]
      exact (within y).1
  · by_cases after : y = r.next.get x
    · rw [if_pos after, after, (within x).1]
    · rw [if_neg after]
      exact (within y).2

/-- A node that heads nobody else may take the header of the node that it is put after. -/
theorem Within.insertAfter (within : r.Within header) (alone : ∀ z, header z = y ↔ z = y)
    (known : ∀ z, header' z = if z = y then header x else header z) :
    (r.insertAfter x y).Within header' := by
  -- Nobody else's link leads to the node, since it would have that node's header.
  have reached : ∀ {z w}, header w = header z → w = y → z = y := fun {z w} same eq =>
    (alone z).1 (same.symm.trans ((alone w).2 eq))
  have place : ∀ {w}, header w = header x → header' w = header x := fun {w} same => by
    rw [known]
    split
    · rfl
    · exact same
  have other : ∀ {z w}, z ≠ y → header w = header z → header' w = header' z := fun {z w} ne same => by
    rw [known, known, if_neg ne, if_neg fun eq => ne (reached same eq), same]
  intro z
  rw [next_insertAfter, prev_insertAfter]
  have self : header' y = header x := by rw [known, if_pos rfl]
  constructor
  · split
    · next eq => rw [eq, self, place rfl]
    · split
      · next eq => rw [eq, self, place (within x).1]
      · next ne => exact other ne (within z).1
  · split
    · next eq => rw [eq, self, place (within x).1]
    · split
      · next eq => rw [eq, self, place rfl]
      · next ne => exact other ne (within z).2

/-- A node that heads nobody else is alone in its ring. -/
theorem Within.ring_nil (within : r.Within header) (alone : ∀ z, header z = x ↔ z = x) :
    r.Ring x [] := by
  have own : header x = x := (alone x).2 rfl
  exact Rings.ring_nil ((alone _).1 ((within x).1.trans own)) ((alone _).1 ((within x).2.trans own))

/-- A node with another header keeps its links when a node is taken out. -/
theorem Within.links_unlink (within : r.Within header) (ne : header y ≠ header x) :
    (r.unlink x).next.get y = r.next.get y ∧ (r.unlink x).prev.get y = r.prev.get y := by
  obtain ⟨next, prev⟩ := within x
  rw [next_unlink, prev_unlink]
  exact ⟨if_neg fun before : y = r.prev.get x => ne (by rw [before, prev]),
    if_neg fun after : y = r.next.get x => ne (by rw [after, next])⟩

/-- A node with another header keeps its links when a node is put back. -/
theorem Within.links_relink (within : r.Within header) (ne : header y ≠ header x) :
    (r.relink x).next.get y = r.next.get y ∧ (r.relink x).prev.get y = r.prev.get y := by
  rw [next_relink, prev_relink]
  refine ⟨if_neg fun before => ne ?_, if_neg fun after => ne ?_⟩
  · rw [before, within.relinked]
  · rw [after, (within x).1]

/-- A path is given by the links of its nodes. -/
theorem Path.of_links (h : r.Path a xs b) (next : ∀ y ∈ a :: xs, r'.next.get y = r.next.get y)
    (prev : ∀ y ∈ b :: xs, r'.prev.get y = r.prev.get y) : r'.Path a xs b := by
  induction xs generalizing a with
  | nil =>
    exact ⟨(next a List.mem_cons_self).trans h.1, (prev b List.mem_cons_self).trans h.2⟩
  | cons x xs ih =>
    obtain ⟨first, next⟩ := List.forall_mem_cons.1 next
    obtain ⟨last, second, prev⟩ : r'.prev.get b = r.prev.get b ∧ r'.prev.get x = r.prev.get x ∧
        ∀ y ∈ xs, r'.prev.get y = r.prev.get y := by
      simpa using prev
    exact ⟨⟨first.trans h.1.1, second.trans h.1.2⟩,
      ih h.2 next (List.forall_mem_cons.2 ⟨last, prev⟩)⟩

/-- A ring is given by the links of its nodes. -/
theorem Ring.of_links (h : r.Ring x xs) (links : ∀ y ∈ x :: xs,
    r'.next.get y = r.next.get y ∧ r'.prev.get y = r.prev.get y) : r'.Ring x xs :=
  ⟨h.nodup, h.path.of_links (fun y mem => (links y mem).1) fun y mem => (links y mem).2⟩

/-- What a walk meets has every property that a step keeps. -/
theorem of_mem_walk {step : Nat → Nat} {stop fuel : Nat} {nodes : List Nat} {good : Nat → Prop}
    (walked : walk step stop fuel x = some nodes) (first : good x)
    (kept : ∀ y, good y → good (step y)) : ∀ y ∈ nodes, good y ∧ y ≠ stop := by
  induction fuel generalizing x nodes with
  | zero => cases walked
  | succ fuel ih =>
    unfold walk at walked
    split at walked
    · cases walked
      exact List.forall_mem_nil _
    · next going =>
      obtain ⟨rest, found, rfl⟩ := Option.map_eq_some_iff.1 walked
      exact List.forall_mem_cons.2 ⟨⟨first, going⟩, ih found (kept x first)⟩

end Rings

/-! ## Meshes -/

namespace Mesh

variable {m m' : Mesh} {c h k x y : Nat} {xs ys : List Nat} {label : Option String}

/-- Links lead to nodes with the same header, the headers of nodes are nodes, and numbers that no node
has are headers of their own. -/
structure Confined (m : Mesh) : Prop where
  across : m.horizontal.Within m.rowHeader.get
  along : m.vertical.Within m.columnHeader.get
  bound : ∀ x < m.size, m.rowHeader.get x < m.size ∧ m.columnHeader.get x < m.size
  beyond : ∀ x, m.size ≤ x → m.rowHeader.get x = x ∧ m.columnHeader.get x = x

theorem confined_empty : Mesh.empty.Confined where
  across x := by simp [Mesh.empty, Rings.alone]
  along x := by simp [Mesh.empty, Rings.alone]
  bound := nofun
  beyond x _ := ⟨Table.get_empty x, Table.get_empty x⟩

/-- The next number heads nobody but itself. -/
theorem Confined.alone (confined : m.Confined) :
    (∀ z, m.rowHeader.get z = m.size ↔ z = m.size) ∧
      ∀ z, m.columnHeader.get z = m.size ↔ z = m.size := by
  have own := confined.beyond m.size (Nat.le_refl _)
  constructor
  · refine fun z => ⟨fun eq => ?_, fun eq => eq ▸ own.1⟩
    rcases Nat.lt_or_ge z m.size with lt | ge
    · exact absurd eq (Nat.ne_of_lt (confined.bound z lt).1)
    · exact (confined.beyond z ge).1.symm.trans eq
  · refine fun z => ⟨fun eq => ?_, fun eq => eq ▸ own.2⟩
    rcases Nat.lt_or_ge z m.size with lt | ge
    · exact absurd eq (Nat.ne_of_lt (confined.bound z lt).2)
    · exact (confined.beyond z ge).2.symm.trans eq

theorem Confined.addNode (confined : m.Confined) : (m.addNode label).Confined where
  across := confined.across
  along := confined.along
  bound x lt := by
    rw [size_addNode] at lt ⊢
    have own := confined.beyond x
    have inside := confined.bound x
    exact ⟨by grind [Mesh.addNode], by grind [Mesh.addNode]⟩
  beyond x le := by
    rw [size_addNode] at le
    exact confined.beyond x (Nat.le_of_succ_le le)

/-- The node beside another has its row header. -/
theorem Confined.rowHeader_left (confined : m.Confined) (h : Nat) :
    m.rowHeader.get (m.horizontal.prev.get h) = m.rowHeader.get h := (confined.across h).2

/-- The node above another has its column header. -/
theorem Confined.columnHeader_up (confined : m.Confined) (c : Nat) :
    m.columnHeader.get (m.vertical.prev.get c) = m.columnHeader.get c := (confined.along c).2

/-- Putting a node beside another keeps links within rows. -/
theorem Confined.insertLeft (confined : m.Confined) (hh : h < m.size) (lt : y < m.size)
    (alone : ∀ z, m.rowHeader.get z = y ↔ z = y) : (m.insertLeft h y).Confined where
  across := confined.across.insertAfter alone fun z => rowHeader_insertLeft m h y z
  along := confined.along
  bound x below := by
    refine ⟨?_, (confined.bound x below).2⟩
    rw [rowHeader_insertLeft, confined.rowHeader_left]
    split
    · exact (confined.bound h hh).1
    · exact (confined.bound x below).1
  beyond x le := by
    refine ⟨?_, (confined.beyond x le).2⟩
    rw [rowHeader_insertLeft, if_neg (Nat.ne_of_gt (Nat.lt_of_lt_of_le lt le))]
    exact (confined.beyond x le).1

/-- Putting a node above another keeps links within columns. -/
theorem Confined.insertUp (confined : m.Confined) (hc : c < m.size) (lt : y < m.size)
    (alone : ∀ z, m.columnHeader.get z = y ↔ z = y) : (m.insertUp c y).Confined where
  across := confined.across
  along := confined.along.insertAfter alone fun z => columnHeader_insertUp m c y z
  bound x below := by
    refine ⟨(confined.bound x below).1, ?_⟩
    rw [columnHeader_insertUp, confined.columnHeader_up]
    split
    · exact (confined.bound c hc).2
    · exact (confined.bound x below).2
  beyond x le := by
    refine ⟨(confined.beyond x le).1, ?_⟩
    rw [columnHeader_insertUp, if_neg (Nat.ne_of_gt (Nat.lt_of_lt_of_le lt le))]
    exact (confined.beyond x le).2

/-- The neighbours of nodes are nodes. -/
theorem Confined.neighbor_lt (confined : m.Confined) (lt : x < m.size) (d : Direction) :
    m.neighbor d x < m.size := by
  refine Nat.lt_of_not_le fun le => ?_
  obtain ⟨row, column⟩ := confined.beyond _ le
  obtain ⟨row', column'⟩ := confined.bound x lt
  cases d with
  | up => exact Nat.not_lt.2 le (by rw [← column, neighbor, (confined.along x).2]; exact column')
  | down => exact Nat.not_lt.2 le (by rw [← column, neighbor, (confined.along x).1]; exact column')
  | left => exact Nat.not_lt.2 le (by rw [← row, neighbor, (confined.across x).2]; exact row')
  | right => exact Nat.not_lt.2 le (by rw [← row, neighbor, (confined.across x).1]; exact row')

/-- What is met along a column are other nodes of that column. -/
theorem Confined.of_nodesAfter_down (confined : m.Confined) (lt : x < m.size)
    (met : m.nodesAfter .down x = some ys) :
    ∀ y ∈ ys, (y < m.size ∧ m.columnHeader.get y = m.columnHeader.get x) ∧ y ≠ x :=
  Rings.of_mem_walk met ⟨confined.neighbor_lt lt .down, (confined.along x).1⟩ fun y ⟨inside, same⟩ =>
    ⟨confined.neighbor_lt inside .down, (confined.along y).1.trans same⟩

/-! ## Taking nodes out and putting them back -/

theorem Confined.unlinkHorizontal (confined : m.Confined) (x : Nat) :
    (m.unlinkHorizontal x).Confined :=
  { confined with across := confined.across.unlink x }

theorem Confined.relinkHorizontal (confined : m.Confined) (x : Nat) :
    (m.relinkHorizontal x).Confined :=
  { confined with across := confined.across.relink x }

theorem Confined.unlinkVertical (confined : m.Confined) (x : Nat) : (m.unlinkVertical x).Confined :=
  { confined with along := confined.along.unlink x }

theorem Confined.relinkVertical (confined : m.Confined) (x : Nat) : (m.relinkVertical x).Confined :=
  { confined with along := confined.along.relink x }

theorem Confined.relinkEach (confined : m.Confined) (nodes : List Nat) :
    (m.relinkEach nodes).Confined := by
  induction nodes generalizing m with
  | nil => exact confined
  | cons y ys ih => exact ih (confined.relinkVertical y)

theorem Confined.unlinkEach (confined : m.Confined) (nodes : List Nat) :
    (m.unlinkEach nodes).Confined := by
  induction nodes generalizing m with
  | nil => exact confined
  | cons y ys ih => exact ih (confined.unlinkVertical y)

theorem Confined.hide (confined : m.Confined) (c : Nat) (nodes : List Nat) :
    (m.hide c nodes).Confined :=
  (confined.unlinkHorizontal c).unlinkEach nodes

theorem Confined.reveal (confined : m.Confined) (c : Nat) (nodes : List Nat) :
    (m.reveal c nodes).Confined :=
  (confined.relinkEach nodes).relinkHorizontal c

/-- Only links and counts change when nodes are put back. -/
theorem headers_relinkEach (m : Mesh) (nodes : List Nat) :
    (m.relinkEach nodes).rowHeader = m.rowHeader ∧
      (m.relinkEach nodes).columnHeader = m.columnHeader := by
  induction nodes generalizing m with
  | nil => exact ⟨rfl, rfl⟩
  | cons y ys ih => exact ih (m.relinkVertical y)

@[simp] theorem rowHeader_reveal (m : Mesh) (c : Nat) (nodes : List Nat) :
    (m.reveal c nodes).rowHeader = m.rowHeader := (headers_relinkEach m nodes).1

@[simp] theorem columnHeader_reveal (m : Mesh) (c : Nat) (nodes : List Nat) :
    (m.reveal c nodes).columnHeader = m.columnHeader := (headers_relinkEach m nodes).2

@[simp] theorem size_hide (m : Mesh) (c : Nat) (nodes : List Nat) : (m.hide c nodes).size = m.size := by
  rw [size, labels_hide, size]

@[simp] theorem size_reveal (m : Mesh) (c : Nat) (nodes : List Nat) :
    (m.reveal c nodes).size = m.size := by
  rw [size, labels_reveal, size]

/-- A row whose header is not that of `c` does not notice that `c` is taken out, -/
theorem Row.hide_apart (row : m.Row h xs) (confined : m.Confined) (ne : m.rowHeader.get c ≠ h)
    (nodes : List Nat) : (m.hide c nodes).Row h xs := by
  have links : ∀ y ∈ h :: xs, m.rowHeader.get y ≠ m.rowHeader.get c := fun y mem eq =>
    ne (eq.symm.trans (row.header y mem))
  refine ⟨?_, by simpa only [rowHeader_hide] using row.header, by simpa using row.bound⟩
  rw [horizontal_hide]
  exact row.ring.of_links fun y mem => confined.across.links_unlink (links y mem)

/-- nor that it is put back. -/
theorem Row.reveal_apart (row : m.Row h xs) (confined : m.Confined) (ne : m.rowHeader.get c ≠ h)
    (nodes : List Nat) : (m.reveal c nodes).Row h xs := by
  have links : ∀ y ∈ h :: xs, m.rowHeader.get y ≠ m.rowHeader.get c := fun y mem eq =>
    ne (eq.symm.trans (row.header y mem))
  refine ⟨?_, by simpa only [rowHeader_reveal] using row.header, by simpa using row.bound⟩
  rw [horizontal_reveal]
  exact row.ring.of_links fun y mem => confined.across.links_relink (links y mem)

end Mesh

end DancingLinks
