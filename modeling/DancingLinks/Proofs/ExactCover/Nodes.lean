import Mathlib.Data.List.Nodup
import DancingLinks.ExactCover.AlgorithmX

/-!
# The nodes of a problem

A problem whose columns are given by the numbers of their headers says which nodes a matrix for it
has. The row of a choice starts with its header, the choice's number, and goes on with one node per
column (`Choice.node`). Going round the row from one of these nodes meets the nodes of the columns
after it, the header, and the nodes of the columns before it (`Choice.mates`).

`Problem.held` keeps the columns that had been covered when some column was: what is covered
afterwards no longer reaches the nodes of that column.
-/

namespace DancingLinks

/-! ## Rows -/

namespace Choice

variable {κ : Type} [DecidableEq κ]

/-- The columns after `c`. -/
def after (r : Choice κ) (c : κ) : List κ := (r.columns.dropWhile (· ≠ c)).tail

/-- The columns before `c`. -/
def before (r : Choice κ) (c : κ) : List κ := r.columns.takeWhile (· ≠ c)

/-- A column that is used starts what is left of the columns after those before it. -/
theorem dropWhile_eq {xs : List κ} {c : κ} (mem : c ∈ xs) :
    xs.dropWhile (· ≠ c) = c :: (xs.dropWhile (· ≠ c)).tail := by
  induction xs with
  | nil => cases mem
  | cons x xs ih =>
    by_cases same : x = c
    · simp [same]
    · have rest : c ∈ xs := (List.mem_cons.1 mem).resolve_left (Ne.symm same)
      rw [List.dropWhile_cons_of_pos (by simpa using same)]
      exact ih rest

/-- A column that is used splits the list of columns. -/
theorem columns_eq {r : Choice κ} {c : κ} (mem : c ∈ r.columns) :
    r.columns = r.before c ++ c :: r.after c := by
  rw [before, after, ← dropWhile_eq mem, List.takeWhile_append_dropWhile]

/-- A choice turned to a column goes on with the columns after it, and then those before it. -/
theorem columns_startingAt {r : Choice κ} {c : κ} (mem : c ∈ r.columns) :
    (r.startingAt c).columns = c :: (r.after c ++ r.before c) := by
  rw [startingAt, dropWhile_eq mem]
  rfl

/-- Turning a choice only changes the order of its columns. -/
theorem columns_startingAt_perm {r : Choice κ} {c : κ} :
    (r.startingAt c).columns.Perm r.columns := by
  have := List.takeWhile_append_dropWhile (p := (· ≠ c)) (l := r.columns)
  exact List.perm_append_comm.trans (List.Perm.of_eq this)

/-- The columns beside `c` differ, as those of the choice do. -/
theorem nodup_after_before {r : Choice κ} {c : κ} (mem : c ∈ r.columns) (nodup : r.columns.Nodup) :
    (r.after c ++ r.before c).Nodup := by
  have turned : (r.startingAt c).columns.Nodup := columns_startingAt_perm.nodup_iff.2 nodup
  rw [columns_startingAt mem] at turned
  exact (List.nodup_cons.1 turned).2

/-- The columns beside `c` are the others. -/
theorem mem_after_before {r : Choice κ} {c d : κ} (mem : c ∈ r.columns) (nodup : r.columns.Nodup) :
    d ∈ r.after c ∨ d ∈ r.before c ↔ d ∈ r.columns ∧ d ≠ c := by
  rw [columns_eq mem] at nodup
  rw [columns_eq mem, List.mem_append, List.mem_cons]
  have middle := List.nodup_middle.1 nodup
  have fresh := (List.nodup_cons.1 middle).1
  rw [List.mem_append, not_or] at fresh
  grind

variable {r s : Choice Nat} {c d y : Nat}

/-- The node of a row in a column. -/
def node (r : Choice Nat) (c : Nat) : Nat := r.number + 1 + r.columns.idxOf c

/-- The nodes of a row, in the order of its columns. -/
def nodes (r : Choice Nat) : List Nat := r.columns.map r.node

/-- What is met going to the right from the node in column `c`, round the row. -/
def mates (r : Choice Nat) (c : Nat) : List Nat :=
  (r.after c).map r.node ++ r.number :: (r.before c).map r.node

/-- A row split at one of its nodes. -/
theorem nodes_eq (mem : c ∈ r.columns) :
    r.nodes = (r.before c).map r.node ++ r.node c :: (r.after c).map r.node := by
  rw [nodes, columns_eq mem, List.map_append, List.map_cons]

/-- The nodes of a row have the numbers after that of its header. -/
theorem nodes_eq_range' (nodup : r.columns.Nodup) :
    r.nodes = List.range' (r.number + 1) r.columns.length := by
  refine List.ext_getElem (by simp [nodes]) fun i lt _ => ?_
  rw [nodes, List.length_map] at lt
  simp [nodes, node, nodup.idxOf_getElem i lt]

/-- No node of a row has a lower number than its header. -/
theorem number_le (there : y ∈ r.number :: r.nodes) : r.number ≤ y := by
  rcases List.mem_cons.1 there with rfl | there
  · exact Nat.le_refl _
  · obtain ⟨c, -, rfl⟩ := List.mem_map.1 there
    rw [node]
    omega

/-- The row's other nodes, its header included. -/
theorem mem_mates (mem : c ∈ r.columns) (nodup : r.columns.Nodup) :
    y ∈ r.mates c ↔ y = r.number ∨ ∃ d ∈ r.columns, d ≠ c ∧ y = r.node d := by
  simp only [mates, List.mem_append, List.mem_cons, List.mem_map]
  constructor
  · rintro (⟨d, hd, rfl⟩ | rfl | ⟨d, hd, rfl⟩)
    · obtain ⟨hd, ne⟩ := (mem_after_before mem nodup).1 (.inl hd)
      exact .inr ⟨d, hd, ne, rfl⟩
    · exact .inl rfl
    · obtain ⟨hd, ne⟩ := (mem_after_before mem nodup).1 (.inr hd)
      exact .inr ⟨d, hd, ne, rfl⟩
  · rintro (rfl | ⟨d, hd, ne, rfl⟩)
    · exact .inr (.inl rfl)
    · rcases (mem_after_before mem nodup).2 ⟨hd, ne⟩ with hd | hd
      · exact .inl ⟨d, hd, rfl⟩
      · exact .inr (.inr ⟨d, hd, rfl⟩)

/-- The choice that uses one more column. -/
def extend (r : Choice Nat) (c : Nat) : Choice Nat := { r with columns := r.columns ++ [c] }

@[simp] theorem mem_extend : d ∈ (r.extend c).columns ↔ d ∈ r.columns ∨ d = c := by
  simp [extend]

/-- One more column leaves the nodes in the others. -/
theorem node_extend_of_mem (mem : d ∈ r.columns) : (r.extend c).node d = r.node d := by
  rw [node, node, extend, List.idxOf_append, if_pos mem]

/-- The node in one more column is the next after the row's nodes. -/
theorem node_extend_self (new : c ∉ r.columns) :
    (r.extend c).node c = r.number + 1 + r.columns.length := by
  simp [node, extend, List.idxOf_append, new]

/-- One more column adds one node at the end. -/
theorem nodes_extend (new : c ∉ r.columns) :
    (r.extend c).nodes = r.nodes ++ [r.number + 1 + r.columns.length] := by
  have old : r.columns.map (r.extend c).node = r.columns.map r.node :=
    List.map_congr_left fun d mem => node_extend_of_mem mem
  calc (r.extend c).nodes = r.columns.map (r.extend c).node ++ [(r.extend c).node c] :=
        List.map_append
    _ = r.nodes ++ [r.number + 1 + r.columns.length] := by rw [old, node_extend_self new, nodes]

end Choice

/-! ## Columns -/

namespace Problem

variable {κ : Type} [DecidableEq κ]

/-- A choice takes the column it was made for, and the columns beside it. -/
theorem without_columns (p : Problem κ) {r : Choice κ} {c : κ} (mem : c ∈ r.columns)
    (covered : List κ) :
    (p.without covered).without r.columns
      = p.without ((r.after c ++ r.before c).reverse ++ c :: covered) := by
  rw [← without_append]
  refine p.without_congr fun d => ?_
  rw [Choice.columns_eq mem]
  simp only [List.mem_append, List.mem_cons, List.mem_reverse]
  tauto

/-- All columns. -/
def columns (p : Problem κ) : List κ := p.primary ++ p.secondary

@[simp] theorem mem_columns_without {p : Problem κ} {covered : List κ} {c : κ} :
    c ∈ (p.without covered).columns ↔ c ∈ p.columns ∧ c ∉ covered := by
  simp only [columns, List.mem_append, mem_primary_without, mem_secondary_without]
  tauto

/-- One more column is covered. -/
theorem without_cons (p : Problem κ) (c : κ) (covered : List κ) :
    p.without (c :: covered) = (p.without covered).without [c] := by
  rw [← without_append]
  exact p.without_congr fun d => by simp [or_comm]

theorem primary_without_cons (p : Problem κ) (c : κ) (covered : List κ) :
    (p.without (c :: covered)).primary = (p.without covered).primary.filter (· ≠ c) := by
  rw [without_cons]
  exact List.filter_congr fun d _ => by simp

theorem secondary_without_cons (p : Problem κ) (c : κ) (covered : List κ) :
    (p.without (c :: covered)).secondary = (p.without covered).secondary.filter (· ≠ c) := by
  rw [without_cons]
  exact List.filter_congr fun d _ => by simp

/-- The choices that are left when one more column is covered do not use it. -/
theorem choices_without_cons (p : Problem κ) (c : κ) (covered : List κ) :
    (p.without (c :: covered)).choices = (p.without covered).choices.filter (c ∉ ·.columns) := by
  rw [without_cons]
  refine List.filter_congr fun r _ => ?_
  rw [Bool.eq_iff_iff]
  simp only [List.all_eq_true, List.mem_singleton, decide_eq_true_eq]
  exact ⟨fun avoids mem => avoids c mem rfl, fun avoids d hd eq => avoids (eq ▸ hd)⟩

/-- The columns covered before `c` was, or all of them if `c` is not covered. -/
def held (covered : List κ) (c : κ) : List κ :=
  if c ∈ covered then (covered.dropWhile (· ≠ c)).tail else covered

theorem held_of_not_mem {covered : List κ} {c : κ} (free : c ∉ covered) :
    held covered c = covered := if_neg free

theorem held_cons_self (covered : List κ) (c : κ) : held (c :: covered) c = covered := by
  simp [held]

theorem held_cons_of_mem {covered : List κ} {c d : κ} (mem : d ∈ covered) (ne : d ≠ c) :
    held (c :: covered) d = held covered d := by
  simp [held, mem, Ne.symm ne]

/-- The nodes in a column, from top to bottom. -/
def entries (p : Problem Nat) (c : Nat) : List Nat :=
  (p.choices.filter (c ∈ ·.columns)).map (·.node c)

/-- The same columns with one more choice. -/
def add (p : Problem κ) (r : Choice κ) : Problem κ := { p with choices := p.choices ++ [r] }

theorem entries_add (p : Problem Nat) (r : Choice Nat) (c : Nat) :
    (p.add r).entries c = p.entries c ++ if c ∈ r.columns then [r.node c] else [] := by
  rw [entries, add, List.filter_append, List.map_append, entries]
  split
  · next mem => simp [mem]
  · next other => simp [other]

/-- One more column of the last choice adds an entry to that column. -/
theorem entries_extend_self {p : Problem Nat} {r : Choice Nat} {c : Nat} (new : c ∉ r.columns) :
    (p.add (r.extend c)).entries c
      = (p.add r).entries c ++ [r.number + 1 + r.columns.length] := by
  rw [entries_add, entries_add, if_pos (Choice.mem_extend.2 (.inr rfl)), if_neg new,
    Choice.node_extend_self new, List.append_nil]

/-- One more column of the last choice leaves the other columns. -/
theorem entries_extend_of_ne {p : Problem Nat} {r : Choice Nat} {c d : Nat} (ne : d ≠ c) :
    (p.add (r.extend c)).entries d = (p.add r).entries d := by
  rw [entries_add, entries_add]
  by_cases mem : d ∈ r.columns
  · rw [if_pos mem, if_pos (Choice.mem_extend.2 (.inl mem)), Choice.node_extend_of_mem mem]
  · rw [if_neg mem, if_neg (by simp [mem, ne])]

/-- The nodes that are met from the entries of a column along their rows. -/
def mates (p : Problem Nat) (c : Nat) : List Nat :=
  (p.choices.filter (c ∈ ·.columns)).flatMap (·.mates c)

end Problem

end DancingLinks
