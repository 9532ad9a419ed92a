import DancingLinks.Proofs.Mesh.Shows

/-!
# What is seen of a mesh

A mesh that shows what is left of a problem is `Strung` on it: the rings at the roots, those of the
columns that are left and those of the rows that are left have the nodes that the problem says. Every
node that is seen lies in one of these rings in either direction (`Problem.exists_rings`). So its
links lead back to it (`Strung.linked`), and they are given by what is left alone, in whichever order
columns were covered (`Strung.neighbor_eq`).
-/

namespace DancingLinks

open DancingLinks.Matrix (primaryRoot secondaryRoot)

/-- The direction that leads back. -/
def Direction.opposite : Direction → Direction
  | up => down
  | down => up
  | left => right
  | right => left

/-- The nodes that are seen of a problem: the roots, the headers of its columns and rows, and the
entries of its columns. -/
def Problem.visible (p : Problem Nat) : List Nat :=
  primaryRoot :: secondaryRoot ::
    (p.columns ++ p.choices.map Choice.number ++ p.columns.flatMap p.entries)

namespace Problem

variable {p : Problem Nat} {x : Nat}

/-- The horizontal rings of a problem, each as a header with the other nodes: those of the columns, and
those of the rows. -/
def rowRings (p : Problem Nat) : List (Nat × List Nat) :=
  (primaryRoot, p.primary) :: (secondaryRoot, p.secondary) ::
    p.choices.map fun r => (r.number, r.nodes)

/-- The vertical rings of a problem, each as a header with the other nodes: that of the row headers, one
that has no others, and those of the entries of the columns. -/
def columnRings (p : Problem Nat) : List (Nat × List Nat) :=
  (primaryRoot, p.choices.map Choice.number) :: (secondaryRoot, []) ::
    p.columns.map fun c => (c, p.entries c)

/-- A node that is seen lies in a horizontal and in a vertical ring. -/
theorem exists_rings (seen : x ∈ p.visible) :
    (∃ h xs, (h, xs) ∈ p.rowRings ∧ x ∈ h :: xs) ∧ ∃ c ys, (c, ys) ∈ p.columnRings ∧ x ∈ c :: ys := by
  have row : ∀ r ∈ p.choices, (r.number, r.nodes) ∈ p.rowRings := fun r hr =>
    List.mem_cons_of_mem _ (List.mem_cons_of_mem _ (List.mem_map_of_mem hr))
  have column : ∀ c ∈ p.columns, (c, p.entries c) ∈ p.columnRings := fun c hc =>
    List.mem_cons_of_mem _ (List.mem_cons_of_mem _ (List.mem_map_of_mem hc))
  have primary : (primaryRoot, p.primary) ∈ p.rowRings := List.mem_cons_self
  have secondary : (secondaryRoot, p.secondary) ∈ p.rowRings := by simp [rowRings]
  have numbers : (primaryRoot, p.choices.map Choice.number) ∈ p.columnRings := List.mem_cons_self
  simp only [visible, List.mem_cons, List.mem_append, List.mem_map, List.mem_flatMap] at seen
  rcases seen with rfl | rfl | (here | ⟨r, hr, rfl⟩) | ⟨c, hc, entry⟩
  · exact ⟨⟨_, _, primary, List.mem_cons_self⟩, _, _, numbers, List.mem_cons_self⟩
  · exact ⟨⟨_, _, secondary, List.mem_cons_self⟩, _, [], by simp [columnRings], List.mem_cons_self⟩
  · refine ⟨?_, _, _, column x here, List.mem_cons_self⟩
    rcases List.mem_append.1 here with mem | mem
    · exact ⟨_, _, primary, List.mem_cons_of_mem _ mem⟩
    · exact ⟨_, _, secondary, List.mem_cons_of_mem _ mem⟩
  · exact ⟨⟨_, _, row r hr, List.mem_cons_self⟩, _, _, numbers,
      List.mem_cons_of_mem _ (List.mem_map_of_mem hr)⟩
  · refine ⟨?_, _, _, column c hc, List.mem_cons_of_mem _ entry⟩
    obtain ⟨r, hr, rfl⟩ := List.mem_map.1 entry
    obtain ⟨hr, used⟩ := List.mem_filter.1 hr
    exact ⟨_, _, row r hr, List.mem_cons_of_mem _ (List.mem_map_of_mem (by simpa using used))⟩

end Problem

namespace Mesh

variable {m m' : Mesh} {p : Problem Nat} {covered : List Nat} {c h x : Nat} {xs : List Nat}

/-- The rings of the roots, of the columns and of the rows are those of a problem. -/
structure Strung (m : Mesh) (p : Problem Nat) : Prop where
  primary : m.Row primaryRoot p.primary
  secondary : m.Row secondaryRoot p.secondary
  numbers : m.Column primaryRoot (p.choices.map Choice.number)
  spare : m.Column secondaryRoot []
  columns : ∀ c ∈ p.columns, m.Column c (p.entries c)
  rows : ∀ r ∈ p.choices, m.Row r.number r.nodes

/-- When columns are covered the rings that are left are those of the problem that is left. -/
theorem Shows.strung (shows : m.Shows p covered) : m.Strung (p.without covered) := by
  refine ⟨shows.primary, shows.secondary, shows.rows, shows.spare, fun c hc => ?_, fun r hr => ?_⟩
  · obtain ⟨mem, free⟩ := Problem.mem_columns_without.1 hc
    have column := shows.columns c mem
    rwa [Problem.held_of_not_mem free] at column
  · exact (shows.holds.rows r (Problem.mem_choices_without.1 hr).1).row

/-- The horizontal rings are rows of the mesh, -/
theorem Strung.row (strung : m.Strung p) (ring : (h, xs) ∈ p.rowRings) : m.Row h xs := by
  simp only [Problem.rowRings, List.mem_cons, List.mem_map, Prod.mk.injEq] at ring
  rcases ring with ⟨rfl, rfl⟩ | ⟨rfl, rfl⟩ | ⟨r, hr, rfl, rfl⟩
  · exact strung.primary
  · exact strung.secondary
  · exact strung.rows r hr

/-- and the vertical ones are columns. -/
theorem Strung.column (strung : m.Strung p) (ring : (c, xs) ∈ p.columnRings) : m.Column c xs := by
  simp only [Problem.columnRings, List.mem_cons, List.mem_map, Prod.mk.injEq] at ring
  rcases ring with ⟨rfl, rfl⟩ | ⟨rfl, rfl⟩ | ⟨d, hd, rfl, rfl⟩
  · exact strung.numbers
  · exact strung.spare
  · exact strung.columns d hd

/-- The neighbour of a node that is seen has that node as its neighbour on the other side. -/
theorem Strung.linked (strung : m.Strung p) (seen : x ∈ p.visible) (d : Direction) :
    m.neighbor d.opposite (m.neighbor d x) = x := by
  obtain ⟨⟨h, xs, row, inRow⟩, c, ys, column, inColumn⟩ := Problem.exists_rings seen
  have across := (strung.row row).ring.linked inRow
  have along := (strung.column column).ring.linked inColumn
  cases d with
  | up => exact along.1
  | down => exact along.2
  | left => exact across.1
  | right => exact across.2

/-- The links of a node that is seen are the same in every mesh that is strung on the problem. -/
theorem Strung.neighbor_eq (strung : m.Strung p) (strung' : m'.Strung p) (seen : x ∈ p.visible)
    (d : Direction) : m.neighbor d x = m'.neighbor d x := by
  obtain ⟨⟨h, xs, row, inRow⟩, c, ys, column, inColumn⟩ := Problem.exists_rings seen
  obtain ⟨right, left⟩ := (strung.row row).ring.links_eq (strung'.row row).ring inRow
  obtain ⟨down, up⟩ := (strung.column column).ring.links_eq (strung'.column column).ring inColumn
  cases d with
  | up => exact up
  | down => exact down
  | left => exact left
  | right => exact right

end Mesh

end DancingLinks
