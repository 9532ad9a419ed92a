import DancingLinks.Proofs.Mesh

/-!
# Inserting nodes into a mesh

A node that was never linked is alone in its rings and its own header (`Fresh`), and so is every
number that no node has (`Tidy`). Inserting a fresh node beside a header makes it the last of the
header's row, inserting it above a header the last of the header's column; other rows and columns
stay as they are.
-/

namespace DancingLinks.Mesh

variable {m : Mesh} {c d h k x y : Nat} {xs ys : List Nat} {label : Option String}

/-! ## Fresh nodes -/

/-- The node is alone in its rings, and its own header. -/
structure Fresh (m : Mesh) (x : Nat) : Prop where
  horizontal : m.horizontal.Ring x []
  vertical : m.vertical.Ring x []
  rowHeader : m.rowHeader.get x = x
  columnHeader : m.columnHeader.get x = x
  count : m.count x = 0

/-- Numbers beyond the arena are not linked. -/
def Tidy (m : Mesh) : Prop := ∀ x, m.size ≤ x → m.Fresh x

theorem tidy_empty : Mesh.empty.Tidy := fun x _ =>
  ⟨Rings.ring_nil (Table.get_empty x) (Table.get_empty x),
    Rings.ring_nil (Table.get_empty x) (Table.get_empty x), Table.get_empty x, Table.get_empty x,
    Table.get_empty x⟩

/-- A node with the next number is fresh. -/
theorem Tidy.fresh_addNode (tidy : m.Tidy) : (m.addNode label).Fresh m.size :=
  have fresh := tidy m.size (Nat.le_refl _)
  ⟨fresh.horizontal, fresh.vertical, fresh.rowHeader, fresh.columnHeader, fresh.count⟩

theorem Tidy.addNode (tidy : m.Tidy) : (m.addNode label).Tidy := fun x le => by
  rw [size_addNode] at le
  have fresh := tidy x (Nat.le_of_succ_le le)
  exact ⟨fresh.horizontal, fresh.vertical, fresh.rowHeader, fresh.columnHeader, fresh.count⟩

theorem Row.addNode (row : m.Row h xs) : (m.addNode label).Row h xs :=
  ⟨row.ring, row.header, fun x mem => by
    rw [size_addNode]; exact Nat.lt_succ_of_lt (row.bound x mem)⟩

theorem Column.addNode (column : m.Column c xs) : (m.addNode label).Column c xs :=
  ⟨column.ring, column.header, fun x mem => by
    rw [size_addNode]; exact Nat.lt_succ_of_lt (column.bound x mem), column.count⟩

/-- A fresh node heads a row without other nodes. -/
theorem Fresh.row (fresh : m.Fresh x) (lt : x < m.size) : m.Row x [] :=
  ⟨fresh.horizontal, by simpa using fresh.rowHeader, by simpa using lt⟩

/-- A fresh node heads a column without other nodes. -/
theorem Fresh.column (fresh : m.Fresh x) (lt : x < m.size) : m.Column x [] :=
  ⟨fresh.vertical, by simpa using fresh.columnHeader, by simpa using lt, fresh.count⟩

@[simp] theorem size_insertLeft (m : Mesh) (h y : Nat) : (m.insertLeft h y).size = m.size := rfl

@[simp] theorem size_insertUp (m : Mesh) (c y : Nat) : (m.insertUp c y).size = m.size := rfl

/-! ## Beside a header -/

theorem rowHeader_insertLeft (m : Mesh) (h y x : Nat) : (m.insertLeft h y).rowHeader.get x
    = if x = y then m.rowHeader.get (m.horizontal.prev.get h) else m.rowHeader.get x :=
  Table.get_set ..

/-- The node put beside a header is the last of its row. -/
theorem Row.insertLeft (row : m.Row h xs) (fresh : y ∉ h :: xs) (lt : y < m.size) :
    (m.insertLeft h y).Row h (xs ++ [y]) := by
  have cases : ∀ x ∈ h :: (xs ++ [y]), x = y ∨ x ∈ h :: xs := fun x mem => by
    simp only [List.mem_cons, List.mem_append, List.not_mem_nil, or_false] at mem ⊢
    grind
  refine ⟨row.ring.insertBefore fresh, fun x mem => ?_, fun x mem => ?_⟩
  · rw [rowHeader_insertLeft]
    split
    · exact row.header _ (row.ring.prev_mem List.mem_cons_self)
    · next ne => exact row.header x ((cases x mem).resolve_left ne)
  · rcases cases x mem with rfl | mem
    · exact lt
    · exact row.bound x mem

/-- Rows of other headers stay. -/
theorem Row.insertLeft_other (row : m.Row h xs) (other : m.Row k ys) (ne : k ≠ h)
    (fresh : y ∉ k :: ys) : (m.insertLeft h y).Row k ys := by
  have mem := row.ring.prev_mem (y := h) List.mem_cons_self
  have apart : m.horizontal.prev.get h ∉ k :: ys := fun there =>
    ne ((other.header _ there).symm.trans (row.header _ mem))
  refine ⟨other.ring.insertAfter_of_not_mem (row.ring.linked mem).2 apart fresh,
    fun x there => ?_, other.bound⟩
  rw [rowHeader_insertLeft, if_neg fun eq : x = y => fresh (eq ▸ there)]
  exact other.header x there

theorem Column.insertLeft (column : m.Column c xs) (h y : Nat) : (m.insertLeft h y).Column c xs :=
  ⟨column.ring, column.header, column.bound, column.count⟩

theorem Tidy.insertLeft (tidy : m.Tidy) (row : m.Row h xs) (lt : y < m.size) :
    (m.insertLeft h y).Tidy := by
  intro x le
  have fresh := tidy x le
  have ne : x ≠ y := Nat.ne_of_gt (Nat.lt_of_lt_of_le lt le)
  have mem := row.ring.prev_mem (y := h) List.mem_cons_self
  have apart : m.horizontal.prev.get h ≠ x := fun eq =>
    Nat.not_le_of_lt (row.bound _ mem) (eq ▸ le)
  refine { fresh with horizontal := ?_, rowHeader := ?_ }
  · exact fresh.horizontal.insertAfter_of_not_mem (row.ring.linked mem).2 (mt List.mem_singleton.1 apart)
      (by simpa using Ne.symm ne)
  · rw [rowHeader_insertLeft, if_neg ne]
    exact fresh.rowHeader

/-! ## Above a header -/

theorem columnHeader_insertUp (m : Mesh) (c y x : Nat) : (m.insertUp c y).columnHeader.get x
    = if x = y then m.columnHeader.get (m.vertical.prev.get c) else m.columnHeader.get x :=
  Table.get_set ..

/-- The header that knows the new node counts it. -/
theorem Column.count_insertUp (column : m.Column c xs) (y x : Nat) :
    (m.insertUp c y).count x = if x = c then m.count c + 1 else m.count x := by
  have counted : (m.insertUp c y).columnHeader.get (m.neighbor .up c) = c := by
    have header : m.columnHeader.get (m.vertical.prev.get c) = c :=
      column.header _ (column.ring.prev_mem List.mem_cons_self)
    rw [columnHeader_insertUp]
    split <;> exact header
  calc (m.insertUp c y).count x
      = if x = (m.insertUp c y).columnHeader.get (m.neighbor .up c)
          then m.count ((m.insertUp c y).columnHeader.get (m.neighbor .up c)) + 1
          else m.count x := Table.get_set ..
    _ = if x = c then m.count c + 1 else m.count x := by rw [counted]

/-- A node above a header is counted once, by the header. -/
theorem Column.count_insertUp_eq_add (column : m.Column c xs) (y x : Nat) :
    (m.insertUp c y).count x = m.count x + ([c].count x : Int) := by
  rw [column.count_insertUp, List.count_singleton]
  by_cases eq : x = c
  · simp [eq]
  · simp [eq, Ne.symm eq]

/-- The node put above a header is the last of its column. -/
theorem Column.insertUp (column : m.Column c xs) (fresh : y ∉ c :: xs) (lt : y < m.size) :
    (m.insertUp c y).Column c (xs ++ [y]) := by
  have cases : ∀ x ∈ c :: (xs ++ [y]), x = y ∨ x ∈ c :: xs := fun x mem => by
    simp only [List.mem_cons, List.mem_append, List.not_mem_nil, or_false] at mem ⊢
    grind
  refine ⟨column.ring.insertBefore fresh, fun x mem => ?_, fun x mem => ?_, ?_⟩
  · rw [columnHeader_insertUp]
    split
    · exact column.header _ (column.ring.prev_mem List.mem_cons_self)
    · next ne => exact column.header x ((cases x mem).resolve_left ne)
  · rcases cases x mem with rfl | mem
    · exact lt
    · exact column.bound x mem
  · rw [column.count_insertUp, if_pos rfl, column.count]
    simp

/-- Columns of other headers stay. -/
theorem Column.insertUp_other (column : m.Column c xs) (other : m.Column d ys) (ne : d ≠ c)
    (fresh : y ∉ d :: ys) : (m.insertUp c y).Column d ys := by
  have mem := column.ring.prev_mem (y := c) List.mem_cons_self
  have apart : m.vertical.prev.get c ∉ d :: ys := fun there =>
    ne ((other.header _ there).symm.trans (column.header _ mem))
  refine ⟨other.ring.insertAfter_of_not_mem (column.ring.linked mem).2 apart fresh,
    fun x there => ?_, other.bound, ?_⟩
  · rw [columnHeader_insertUp, if_neg fun eq : x = y => fresh (eq ▸ there)]
    exact other.header x there
  · rw [column.count_insertUp, if_neg ne]
    exact other.count

theorem Row.insertUp (row : m.Row h xs) (c y : Nat) : (m.insertUp c y).Row h xs :=
  ⟨row.ring, row.header, row.bound⟩

theorem Tidy.insertUp (tidy : m.Tidy) (column : m.Column c xs) (lt : y < m.size) :
    (m.insertUp c y).Tidy := by
  intro x le
  have fresh := tidy x le
  have ne : x ≠ y := Nat.ne_of_gt (Nat.lt_of_lt_of_le lt le)
  have mem := column.ring.prev_mem (y := c) List.mem_cons_self
  have apart : m.vertical.prev.get c ≠ x := fun eq =>
    Nat.not_le_of_lt (column.bound _ mem) (eq ▸ le)
  have notHeader : x ≠ c := fun eq =>
    Nat.not_le_of_lt (column.bound c List.mem_cons_self) (eq ▸ le)
  refine { fresh with vertical := ?_, columnHeader := ?_, count := ?_ }
  · exact fresh.vertical.insertAfter_of_not_mem (column.ring.linked mem).2 (mt List.mem_singleton.1 apart)
      (by simpa using Ne.symm ne)
  · rw [columnHeader_insertUp, if_neg ne]
    exact fresh.columnHeader
  · rw [column.count_insertUp, if_neg notHeader]
    exact fresh.count

end DancingLinks.Mesh
