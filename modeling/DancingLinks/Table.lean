/-!
# Tables over node numbers

A `Table rest` is a function on all node numbers that agrees with `rest` almost everywhere: the
exceptions stand in an array, and a number outside it reads as `rest`. Links read as "itself"
outside (`Table id`), counts as zero, so a fresh node needs no entry and every number can be
written. `Table.get_set` is the only fact the rings above rest on.
-/

namespace DancingLinks

/-- A function on node numbers, kept as an array that is extended by `rest`. -/
structure Table {α : Type} (rest : Nat → α) where
  entries : Array α

namespace Table

variable {α : Type} {rest : Nat → α}

/-- The table that is `rest` everywhere. -/
def empty : Table rest := ⟨#[]⟩

instance : Inhabited (Table rest) := ⟨empty⟩

/-- The value at `i`. -/
def get (t : Table rest) (i : Nat) : α :=
  if h : i < t.entries.size then t.entries[i] else rest i

/-- `k` more entries, each with the value it had by default. -/
def pad (rest : Nat → α) : (k : Nat) → Array α → Array α
  | 0, entries => entries
  | k + 1, entries => pad rest k (entries.push (rest entries.size))

/-- The table with `v` at `i`; the array grows when `i` lies outside it. -/
def set (t : Table rest) (i : Nat) (v : α) : Table rest :=
  if h : i < t.entries.size then ⟨t.entries.set i v⟩
  else ⟨(pad rest (i - t.entries.size) t.entries).push v⟩

theorem size_pad (k : Nat) (entries : Array α) :
    (pad rest k entries).size = entries.size + k := by
  induction k generalizing entries with
  | zero => rfl
  | succ k ih => simp [pad, ih, Nat.add_assoc, Nat.add_comm 1 k]

/-- One more entry with its default value changes no value. -/
theorem get_push_rest (entries : Array α) (i : Nat) :
    (⟨entries.push (rest entries.size)⟩ : Table rest).get i = (⟨entries⟩ : Table rest).get i := by
  by_cases below : i < entries.size
  · simp [get, below, Nat.lt_succ_of_lt below, Array.getElem_push]
  · by_cases last : i = entries.size
    · subst last; simp [get]
    · have : ¬ i < entries.size + 1 := by omega
      simp [get, below, this]

/-- Padding changes no value. -/
theorem get_pad (k : Nat) (entries : Array α) (i : Nat) :
    (⟨pad rest k entries⟩ : Table rest).get i = (⟨entries⟩ : Table rest).get i := by
  induction k generalizing entries with
  | zero => rfl
  | succ k ih => rw [pad, ih, get_push_rest]

@[simp] theorem get_empty (i : Nat) : (empty : Table rest).get i = rest i := by
  simp [get, empty]

/-- Writing changes the written place and no other. -/
theorem get_set (t : Table rest) (i j : Nat) (v : α) :
    (t.set i v).get j = if j = i then v else t.get j := by
  unfold set
  split
  · next inside =>
    by_cases h : j = i
    · subst h; simp [get, inside]
    · simp [get, h, Ne.symm h, Array.getElem_set]
  · next outside =>
    rw [← get_pad (i - t.entries.size) t.entries j]
    have size : (pad rest (i - t.entries.size) t.entries).size = i := by rw [size_pad]; omega
    unfold get
    by_cases h : j = i
    · subst h; simp [Array.getElem_push, size]
    · by_cases below : j < i
      · have : j < i + 1 := by omega
        simp [Array.getElem_push, size, h, below, this]
      · have : ¬ j < i + 1 := by omega
        simp [size, h, below, this]

@[simp] theorem get_set_self (t : Table rest) (i : Nat) (v : α) : (t.set i v).get i = v := by
  simp [get_set]

theorem get_set_of_ne (t : Table rest) {i j : Nat} (v : α) (h : j ≠ i) :
    (t.set i v).get j = t.get j := by
  simp [get_set, h]

end Table

end DancingLinks
