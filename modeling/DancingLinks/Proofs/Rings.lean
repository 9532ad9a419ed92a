import DancingLinks.Rings

/-!
# Paths along rings

`Rings.Follows` says that the two links between neighbours agree, `Rings.Path` that certain nodes
lie in this order between two others, and `Rings.Ring` that a node and certain others make a ring.
Taking a node out of its ring leaves every other ring as it is and its own without the node
(`Ring.unlink`); a node put before the start of a ring becomes its last (`Ring.insertBefore`). A walk
around a ring meets its nodes in order, or in reverse (`Ring.walk_next`, `Ring.walk_prev`).

What a node needs to be put back where it was is less than a ring: it must be its neighbours'
neighbour (`Linked`), and that survives the removal of other nodes (`Linked.unlink`). When all of
finitely many nodes are, then every one of them is in a ring (`Closed.exists_ring`).
-/

namespace DancingLinks.Rings

variable {r r' : Rings} {a b n x y z : Nat} {xs ys : List Nat}

/-! ## Neighbours -/

/-- `b` is the successor of `a`, and `a` the predecessor of `b`. -/
def Follows (r : Rings) (a b : Nat) : Prop := r.next.get a = b ∧ r.prev.get b = a

/-- `x` is its neighbours' neighbour. -/
def Linked (r : Rings) (x : Nat) : Prop :=
  r.next.get (r.prev.get x) = x ∧ r.prev.get (r.next.get x) = x

theorem next_unlink (r : Rings) (x y : Nat) :
    (r.unlink x).next.get y = if y = r.prev.get x then r.next.get x else r.next.get y := by
  simp [unlink, Table.get_set]

theorem prev_unlink (r : Rings) (x y : Nat) :
    (r.unlink x).prev.get y = if y = r.next.get x then r.prev.get x else r.prev.get y := by
  simp [unlink, Table.get_set]

theorem next_insertAfter (r : Rings) (x y z : Nat) :
    (r.insertAfter x y).next.get z
      = if z = x then y else if z = y then r.next.get x else r.next.get z := by
  simp [insertAfter, Table.get_set]

theorem prev_insertAfter (r : Rings) (x y z : Nat) :
    (r.insertAfter x y).prev.get z
      = if z = r.next.get x then y else if z = y then x else r.prev.get z := by
  simp [insertAfter, Table.get_set]

/-- Only the two links beside the removed node change. -/
theorem Follows.unlink (h : r.Follows a b) (linked : r.Linked y) (ha : a ≠ y) (hb : b ≠ y) :
    (r.unlink y).Follows a b := by
  obtain ⟨next, prev⟩ := h
  have notBefore : a ≠ r.prev.get y := by
    rintro rfl; exact hb (next.symm.trans linked.1)
  have notAfter : b ≠ r.next.get y := by
    rintro rfl; exact ha (prev.symm.trans linked.2)
  constructor
  · rw [next_unlink, if_neg notBefore, next]
  · rw [prev_unlink, if_neg notAfter, prev]

/-- The neighbours of the removed node become neighbours of each other. -/
theorem Follows.unlink_between (before : r.Follows a y) (after : r.Follows y b) :
    (r.unlink y).Follows a b := by
  constructor
  · rw [next_unlink, before.2, if_pos rfl, after.1]
  · rw [prev_unlink, after.1, if_pos rfl, before.2]

/-- Only the link at which a node is inserted changes. -/
theorem Follows.insertAfter (h : r.Follows a b) (linked : r.prev.get (r.next.get x) = x)
    (hx : a ≠ x) (ha : a ≠ y) (hb : b ≠ y) : (r.insertAfter x y).Follows a b := by
  obtain ⟨next, prev⟩ := h
  have notAfter : b ≠ r.next.get x := by
    rintro rfl; exact hx (prev.symm.trans linked)
  constructor
  · rw [next_insertAfter, if_neg hx, if_neg ha, next]
  · rw [prev_insertAfter, if_neg notAfter, if_neg hb, prev]

/-- An inserted node stands between its new neighbours. -/
theorem Follows.insertAfter_between (h : r.Follows a b) (ha : y ≠ a) (hb : y ≠ b) :
    (r.insertAfter a y).Follows a y ∧ (r.insertAfter a y).Follows y b := by
  obtain ⟨next, prev⟩ := h
  refine ⟨⟨?_, ?_⟩, ?_, ?_⟩
  · rw [next_insertAfter, if_pos rfl]
  · rw [prev_insertAfter, next, if_neg hb, if_pos rfl]
  · rw [next_insertAfter, if_neg ha, if_pos rfl, next]
  · rw [prev_insertAfter, next, if_pos rfl]

/-- A node between two others is its neighbours' neighbour. -/
theorem Follows.linked (before : r.Follows a x) (after : r.Follows x b) : r.Linked x := by
  constructor
  · rw [before.2, before.1]
  · rw [after.1, after.2]

/-- Removing a node leaves every other node its neighbours' neighbour. -/
theorem Linked.unlink (hx : r.Linked x) (hy : r.Linked y) (ne : x ≠ y) : (r.unlink y).Linked x := by
  have before : r.Follows (r.prev.get x) x := ⟨hx.1, rfl⟩
  have after : r.Follows x (r.next.get x) := ⟨rfl, hx.2⟩
  have newBefore : ∃ a, (r.unlink y).Follows a x := by
    by_cases h : r.prev.get x = y
    · rw [h] at before
      exact ⟨_, Follows.unlink_between ⟨hy.1, rfl⟩ before⟩
    · exact ⟨_, before.unlink hy h ne⟩
  have newAfter : ∃ b, (r.unlink y).Follows x b := by
    by_cases h : r.next.get x = y
    · rw [h] at after
      exact ⟨_, Follows.unlink_between after ⟨rfl, hy.2⟩⟩
    · exact ⟨_, after.unlink hy ne h⟩
  obtain ⟨_, before⟩ := newBefore
  obtain ⟨_, after⟩ := newAfter
  exact before.linked after

/-! ## Paths -/

/-- The nodes `xs` lie in this order between `a` and `b`. -/
def Path (r : Rings) (a : Nat) : List Nat → Nat → Prop
  | [], b => r.Follows a b
  | x :: xs, b => r.Follows a x ∧ r.Path x xs b

theorem path_append : r.Path a (xs ++ y :: ys) b ↔ r.Path a xs y ∧ r.Path y ys b := by
  induction xs generalizing a with
  | nil => rfl
  | cons x xs ih => simp only [List.cons_append, Path, ih, and_assoc]

/-- A path enters its end. -/
theorem Path.follows_end (h : r.Path a xs b) : r.Follows (r.prev.get b) b := by
  induction xs generalizing a with
  | nil => exact ⟨by rw [h.2, h.1], rfl⟩
  | cons x xs ih => exact ih h.2

/-- The path read backwards. -/
theorem Path.reverse (h : r.Path a xs b) : (⟨r.prev, r.next⟩ : Rings).Path b xs.reverse a := by
  induction xs generalizing a with
  | nil => exact ⟨h.2, h.1⟩
  | cons x xs ih =>
    rw [List.reverse_cons]
    exact path_append.2 ⟨ih h.2, h.1.2, h.1.1⟩

/-- A path that does not meet the removed node stays. -/
theorem Path.unlink_of_not_mem (h : r.Path a xs b) (linked : r.Linked y) (ha : a ≠ y)
    (hxs : y ∉ xs) (hb : b ≠ y) : (r.unlink y).Path a xs b := by
  induction xs generalizing a with
  | nil => exact Follows.unlink h linked ha hb
  | cons x xs ih =>
    obtain ⟨hx, hxs⟩ := not_or.1 (mt List.mem_cons.2 hxs)
    exact ⟨h.1.unlink linked ha (Ne.symm hx), ih h.2 (Ne.symm hx) hxs⟩

/-- A path bypasses the removed node. -/
theorem Path.unlink (h : r.Path a xs b) (linked : r.Linked y) (nodup : xs.Nodup) (ha : a ≠ y)
    (hb : b ≠ y) : (r.unlink y).Path a (xs.filter (· ≠ y)) b := by
  induction xs generalizing a with
  | nil => exact Follows.unlink h linked ha hb
  | cons x xs ih =>
    obtain ⟨hx, nodup⟩ := List.nodup_cons.1 nodup
    by_cases same : x = y
    · subst same
      have rest : xs.filter (· ≠ x) = xs := List.filter_eq_self.2 fun z mem => by
        simpa using fun eq : z = x => hx (eq ▸ mem)
      rw [List.filter_cons_of_neg (by simp), rest]
      obtain ⟨before, h⟩ := h
      cases xs with
      | nil => exact before.unlink_between h
      | cons z zs =>
        obtain ⟨hz, hzs⟩ := not_or.1 (mt List.mem_cons.2 hx)
        exact ⟨before.unlink_between h.1, h.2.unlink_of_not_mem linked (Ne.symm hz) hzs hb⟩
    · rw [List.filter_cons_of_pos (by simpa using same)]
      exact ⟨h.1.unlink linked ha same, ih h.2 nodup same⟩

/-- A path that does not leave the place of an insertion stays. -/
theorem Path.insertAfter_of_not_mem (h : r.Path a xs b) (linked : r.prev.get (r.next.get x) = x)
    (hx : x ∉ a :: xs) (hy : y ∉ a :: xs) (hb : b ≠ y) : (r.insertAfter x y).Path a xs b := by
  induction xs generalizing a with
  | nil =>
    simp only [List.mem_cons, List.not_mem_nil, or_false] at hx hy
    exact Follows.insertAfter h linked (Ne.symm hx) (Ne.symm hy) hb
  | cons z zs ih =>
    obtain ⟨hxa, hxs⟩ := not_or.1 (mt List.mem_cons.2 hx)
    obtain ⟨hya, hys⟩ := not_or.1 (mt List.mem_cons.2 hy)
    have hz : z ≠ y := fun eq => hys (eq ▸ List.mem_cons_self)
    exact ⟨h.1.insertAfter linked (Ne.symm hxa) (Ne.symm hya) hz, ih h.2 hxs hys⟩

/-- A node inserted before the end of a path is the last one on it. -/
theorem Path.insertBefore (h : r.Path a xs b) (hb : b ∉ xs) (hy : y ∉ a :: xs) (ne : b ≠ y) :
    (r.insertAfter (r.prev.get b) y).Path a (xs ++ [y]) b := by
  induction xs generalizing a with
  | nil =>
    simp only [List.mem_cons, List.not_mem_nil, or_false] at hy
    rw [h.2]
    exact Follows.insertAfter_between h hy (Ne.symm ne)
  | cons z zs ih =>
    obtain ⟨hya, hys⟩ := not_or.1 (mt List.mem_cons.2 hy)
    obtain ⟨hbz, hbs⟩ := not_or.1 (mt List.mem_cons.2 hb)
    have last := h.2.follows_end
    have notLast : a ≠ r.prev.get b := by
      rintro rfl; exact hbz (last.1.symm.trans h.1.1)
    have hz : z ≠ y := fun eq => hys (eq ▸ List.mem_cons_self)
    exact ⟨h.1.insertAfter (by rw [last.1]) notLast (Ne.symm hya) hz, ih h.2 hbs hys⟩

/-- A walk from the start of a path meets its nodes. -/
theorem Path.walk_next (h : r.Path a xs b) (hb : b ∉ xs) {fuel : Nat} (enough : xs.length < fuel) :
    walk r.next.get b fuel (r.next.get a) = some xs := by
  induction xs generalizing a fuel with
  | nil =>
    obtain ⟨fuel, rfl⟩ : ∃ k, fuel = k + 1 := ⟨fuel - 1, by simp at enough; omega⟩
    simp [walk, h.1]
  | cons x xs ih =>
    obtain ⟨fuel, rfl⟩ : ∃ k, fuel = k + 1 := ⟨fuel - 1, by simp at enough; omega⟩
    obtain ⟨hbx, hbs⟩ := not_or.1 (mt List.mem_cons.2 hb)
    have rest := ih h.2 hbs (Nat.lt_of_succ_lt_succ enough)
    simp [walk, h.1.1, Ne.symm hbx, rest]

/-- The successors along a path are given by its nodes. -/
theorem Path.next_eq (h : r.Path a xs b) (h' : r'.Path a xs b) (mem : y ∈ a :: xs) :
    r.next.get y = r'.next.get y := by
  induction xs generalizing a with
  | nil =>
    rw [List.mem_singleton.1 mem]
    exact h.1.trans h'.1.symm
  | cons x xs ih =>
    rcases List.mem_cons.1 mem with rfl | mem
    · exact h.1.1.trans h'.1.1.symm
    · exact ih h.2 h'.2 mem

/-- On a path every node but the ends is its neighbours' neighbour. -/
theorem Path.linked (h : r.Path a xs b) (mem : y ∈ xs) : r.Linked y := by
  obtain ⟨before, after, rfl⟩ := List.append_of_mem mem
  obtain ⟨left, right⟩ := path_append.1 h
  have next : r.Follows y (r.next.get y) := by
    cases after with
    | nil => exact ⟨rfl, by rw [right.1, right.2]⟩
    | cons z zs => exact ⟨rfl, by rw [right.1.1, right.1.2]⟩
  exact left.follows_end.linked next

/-! ## Rings -/

/-- The nodes `xs` are the others of the ring of `x`, in order. -/
structure Ring (r : Rings) (x : Nat) (xs : List Nat) : Prop where
  nodup : (x :: xs).Nodup
  path : r.Path x xs x

/-- The start of a ring is none of the others. -/
theorem Ring.start_not_mem (h : r.Ring x xs) : x ∉ xs := (List.nodup_cons.1 h.nodup).1

/-- A ring may be read from any of its nodes. -/
theorem Ring.rotate (h : r.Ring x (xs ++ y :: ys)) : r.Ring y (ys ++ x :: xs) := by
  obtain ⟨left, right⟩ := path_append.1 h.path
  refine ⟨?_, path_append.2 ⟨right, left⟩⟩
  have swap : (x :: (xs ++ y :: ys)).Perm (y :: (ys ++ x :: xs)) :=
    show ((x :: xs) ++ (y :: ys)).Perm ((y :: ys) ++ (x :: xs)) from List.perm_append_comm
  exact swap.nodup_iff.1 h.nodup

/-- A ring may be read from any of its nodes. What is put at its end is met at one place. -/
theorem Ring.exists_rotation (mem : y ∈ x :: xs) : ∃ as bs, (y :: (as ++ bs)).Perm (x :: xs) ∧
    ∀ (r : Rings) (zs : List Nat), r.Ring x (xs ++ zs) → r.Ring y (as ++ zs ++ bs) := by
  rcases List.mem_cons.1 mem with rfl | mem
  · exact ⟨xs, [], by rw [List.append_nil], fun r zs ring => by rwa [List.append_nil]⟩
  · obtain ⟨before, after, rfl⟩ := List.append_of_mem mem
    have swap : ((y :: after) ++ (x :: before)).Perm ((x :: before) ++ (y :: after)) :=
      List.perm_append_comm
    refine ⟨after, x :: before, swap, fun r zs ring => ?_⟩
    rw [List.append_assoc, List.cons_append] at ring
    exact ring.rotate

/-- A node alone is a ring. -/
theorem ring_nil (next : r.next.get x = x) (prev : r.prev.get x = x) : r.Ring x [] :=
  ⟨by simp, next, prev⟩

/-- Every node of a ring is its neighbours' neighbour. -/
theorem Ring.linked (h : r.Ring x xs) (mem : y ∈ x :: xs) : r.Linked y := by
  rcases List.mem_cons.1 mem with rfl | mem
  · cases xs with
    | nil => exact Follows.linked h.path h.path
    | cons z zs => exact h.path.follows_end.linked h.path.1
  · exact h.path.linked mem

/-- The successors of the nodes of a ring belong to it. -/
theorem Ring.next_mem (h : r.Ring x xs) (mem : y ∈ x :: xs) : r.next.get y ∈ x :: xs := by
  have start : ∀ {a : Nat} {as : List Nat}, r.Path a as x → r.next.get a ∈ x :: as := by
    intro a as path
    cases as with
    | nil => rw [path.1]; exact List.mem_cons_self
    | cons z zs => rw [path.1.1]; simp
  rcases List.mem_cons.1 mem with rfl | mem
  · exact start h.path
  · obtain ⟨before, after, rfl⟩ := List.append_of_mem mem
    rcases List.mem_cons.1 (start (path_append.1 h.path).2) with eq | mem
    · rw [eq]; exact List.mem_cons_self
    · simp [mem]

/-- The ring read backwards. -/
theorem Ring.reverse (h : r.Ring x xs) : (⟨r.prev, r.next⟩ : Rings).Ring x xs.reverse :=
  ⟨((List.reverse_perm xs).cons x).nodup_iff.2 h.nodup, h.path.reverse⟩

/-- The predecessors of the nodes of a ring belong to it. -/
theorem Ring.prev_mem (h : r.Ring x xs) (mem : y ∈ x :: xs) : r.prev.get y ∈ x :: xs := by
  have := h.reverse.next_mem (y := y) (by simpa using mem)
  simpa using this

/-- The links along a ring are given by its nodes. -/
theorem Ring.links_eq (h : r.Ring x xs) (h' : r'.Ring x xs) (mem : y ∈ x :: xs) :
    r.next.get y = r'.next.get y ∧ r.prev.get y = r'.prev.get y :=
  ⟨h.path.next_eq h'.path mem, h.reverse.path.next_eq h'.reverse.path (by simpa using mem)⟩

/-- Only a node that is alone in its ring is its own successor. -/
theorem Ring.next_eq_self (h : r.Ring x xs) : r.next.get x = x ↔ xs = [] := by
  cases xs with
  | nil => exact ⟨fun _ => rfl, fun _ => h.path.1⟩
  | cons y ys =>
    refine ⟨fun same => ?_, nofun⟩
    have next : r.next.get x = y := h.path.1.1
    exact absurd (List.mem_cons.2 (.inl (same.symm.trans next))) h.start_not_mem

/-- A node that is not alone in its ring is not its own successor. -/
theorem Ring.next_ne (h : r.Ring x xs) (mem : y ∈ xs) : r.next.get y ≠ y := by
  obtain ⟨before, after, rfl⟩ := List.append_of_mem mem
  have ring := h.rotate
  intro same
  cases after with
  | nil =>
    have : y = x := same.symm.trans ring.path.1.1
    exact h.start_not_mem (by simp [this])
  | cons z zs =>
    have : y = z := same.symm.trans ring.path.1.1
    exact ring.start_not_mem (by simp [this])

/-- Nor is it its own predecessor. -/
theorem Ring.prev_ne (h : r.Ring x xs) (mem : y ∈ xs) : r.prev.get y ≠ y :=
  h.reverse.next_ne (by simpa using mem)

/-- A node outside a ring keeps its own links when a node is removed from the ring. -/
theorem Ring.links_unlink (h : r.Ring x xs) (mem : y ∈ x :: xs) (out : z ∉ x :: xs) :
    (r.unlink y).prev.get z = r.prev.get z ∧ (r.unlink y).next.get z = r.next.get z := by
  have notAfter : z ≠ r.next.get y := fun eq => out (eq ▸ h.next_mem mem)
  have notBefore : z ≠ r.prev.get y := fun eq => out (eq ▸ h.prev_mem mem)
  rw [prev_unlink, if_neg notAfter, next_unlink, if_neg notBefore]
  exact ⟨rfl, rfl⟩

/-- A removed node keeps its own links. -/
theorem Ring.links_unlink_self (h : r.Ring x xs) (mem : y ∈ xs) :
    (r.unlink y).prev.get y = r.prev.get y ∧ (r.unlink y).next.get y = r.next.get y := by
  rw [prev_unlink, if_neg (Ne.symm (h.next_ne mem)), next_unlink, if_neg (Ne.symm (h.prev_ne mem))]
  exact ⟨rfl, rfl⟩

/-- A removed node is not found from its left neighbour. -/
theorem Ring.hidden_self (h : r.Ring x xs) (mem : y ∈ xs) :
    (r.unlink y).next.get ((r.unlink y).prev.get y) ≠ y := by
  rw [prev_unlink, if_neg (Ne.symm (h.next_ne mem)), next_unlink, if_pos rfl]
  exact h.next_ne mem

/-- A node that was removed stays hidden when a node is removed from a ring that it is not in. -/
theorem Ring.hidden_unlink (h : r.Ring x xs) (mem : y ∈ x :: xs) (out : z ∉ x :: xs)
    (hidden : r.next.get (r.prev.get z) ≠ z) :
    (r.unlink y).next.get ((r.unlink y).prev.get z) ≠ z := by
  have differ : r.next.get y ≠ z := fun eq => out (eq ▸ h.next_mem mem)
  rw [prev_unlink, if_neg (Ne.symm differ), next_unlink]
  split
  · exact differ
  · exact hidden

/-- Taking a node out of its ring, or out of another one. -/
theorem Ring.unlink (h : r.Ring x xs) (linked : r.Linked y) (ne : y ≠ x) :
    (r.unlink y).Ring x (xs.filter (· ≠ y)) := by
  obtain ⟨start, nodup⟩ := List.nodup_cons.1 h.nodup
  refine ⟨List.nodup_cons.2 ⟨fun mem => start (List.mem_filter.1 mem).1, nodup.filter _⟩, ?_⟩
  exact h.path.unlink linked nodup (Ne.symm ne) (Ne.symm ne)

/-- A node that was in no ring becomes the last of the ring before whose start it is put. -/
theorem Ring.insertBefore (h : r.Ring x xs) (fresh : y ∉ x :: xs) :
    (r.insertAfter (r.prev.get x) y).Ring x (xs ++ [y]) := by
  have ne : x ≠ y := fun eq => fresh (eq ▸ List.mem_cons_self)
  refine ⟨?_, h.path.insertBefore h.start_not_mem fresh ne⟩
  have : (y :: x :: xs).Nodup := List.nodup_cons.2 ⟨fresh, h.nodup⟩
  exact (List.perm_append_singleton y (x :: xs)).symm.nodup_iff.1 this

/-- A node put into one ring leaves every other ring as it is. -/
theorem Ring.insertAfter_of_not_mem (h : r.Ring x xs) (linked : r.prev.get (r.next.get a) = a)
    (ha : a ∉ x :: xs) (hy : y ∉ x :: xs) : (r.insertAfter a y).Ring x xs := by
  have ne : x ≠ y := fun eq => hy (eq ▸ List.mem_cons_self)
  exact ⟨h.nodup, h.path.insertAfter_of_not_mem linked ha hy ne⟩

/-- A walk from the start of a ring meets the others in order. -/
theorem Ring.walk_next (h : r.Ring x xs) {fuel : Nat} (enough : xs.length < fuel) :
    walk r.next.get x fuel (r.next.get x) = some xs :=
  h.path.walk_next h.start_not_mem enough

/-- A walk the other way meets the others in reverse. -/
theorem Ring.walk_prev (h : r.Ring x xs) {fuel : Nat} (enough : xs.length < fuel) :
    walk r.prev.get x fuel (r.prev.get x) = some xs.reverse := by
  exact h.reverse.walk_next (by simpa using enough)

/-! ## Rings from links -/

/-- The links of the nodes below `n` lead to nodes below `n`, and back. -/
structure Closed (r : Rings) (n : Nat) : Prop where
  next_lt : ∀ x < n, r.next.get x < n
  linked : ∀ x < n, r.Linked x

/-- The node before the end of a path is on it. -/
theorem Path.prev_mem (h : r.Path a xs b) : r.prev.get b ∈ a :: xs := by
  induction xs generalizing a with
  | nil => exact List.mem_singleton.2 h.2
  | cons x xs ih => exact List.mem_cons_of_mem _ (ih h.2)

/-- A path can come back to its start only, since every other node on it has its predecessor
already. -/
theorem Path.eq_start (h : r.Path a xs b) (nodup : (a :: xs).Nodup) (mem : b ∈ a :: xs) :
    b = a := by
  rcases List.mem_cons.1 mem with same | mem
  · exact same
  · obtain ⟨before, after, rfl⟩ := List.append_of_mem mem
    obtain ⟨left, right⟩ := path_append.1 h
    have apart := (List.nodup_append.1 (show ((a :: before) ++ (b :: after)).Nodup from nodup)).2.2
    exact absurd rfl (apart _ left.prev_mem _ right.prev_mem)

/-- A path of different nodes below `n` can be followed until it closes. -/
theorem Closed.of_path (closed : r.Closed n) (room : Nat) (enough : n ≤ xs.length + room)
    (nodup : (x :: xs).Nodup) (bound : ∀ y ∈ x :: xs, y < n) (path : r.Path x xs b) :
    ∃ ys, r.Ring x ys ∧ ∀ y ∈ x :: ys, y < n := by
  induction room generalizing xs b with
  | zero =>
    have sub : x :: xs ⊆ List.range n := fun y mem => List.mem_range.2 (bound y mem)
    have few := nodup.length_le_of_subset sub
    rw [List.length_range, List.length_cons] at few
    omega
  | succ room ih =>
    by_cases back : b ∈ x :: xs
    · obtain rfl := path.eq_start nodup back
      exact ⟨xs, ⟨nodup, path⟩, bound⟩
    · have last : r.Follows (r.prev.get b) b := path.follows_end
      have below : b < n := last.1 ▸ closed.next_lt _ (bound _ path.prev_mem)
      have longer : (x :: (xs ++ [b])).Nodup :=
        (List.perm_append_singleton b (x :: xs)).nodup_iff.2 (List.nodup_cons.2 ⟨back, nodup⟩)
      have bounded : ∀ y ∈ x :: (xs ++ [b]), y < n := by
        intro y mem
        rcases List.mem_append.1 (show y ∈ (x :: xs) ++ [b] from mem) with old | new
        · exact bound y old
        · rwa [List.mem_singleton.1 new]
      have further : r.Path x (xs ++ [b]) (r.next.get b) :=
        path_append.2 ⟨path, rfl, (closed.linked b below).2⟩
      exact ih (by rw [List.length_append, List.length_singleton]; omega) longer bounded further

/-- Links that lead back make rings. -/
theorem Closed.exists_ring (closed : r.Closed n) (lt : x < n) :
    ∃ xs, r.Ring x xs ∧ ∀ y ∈ x :: xs, y < n :=
  closed.of_path n (Nat.le_add_left ..) (List.pairwise_singleton _ x)
    (fun _ mem => List.mem_singleton.1 mem ▸ lt) ⟨rfl, (closed.linked x lt).2⟩

/-! ## Rings that are linked alike -/

/-- The same links, however they are stored. -/
structure Alike (r r' : Rings) : Prop where
  next : r.next.get = r'.next.get
  prev : r.prev.get = r'.prev.get

theorem Alike.refl (r : Rings) : r.Alike r := ⟨rfl, rfl⟩

theorem Alike.symm (h : r.Alike r') : r'.Alike r := ⟨h.next.symm, h.prev.symm⟩

theorem Alike.trans {r'' : Rings} (h : r.Alike r') (h' : r'.Alike r'') : r.Alike r'' :=
  ⟨h.next.trans h'.next, h.prev.trans h'.prev⟩

theorem Alike.unlink (h : r.Alike r') (x : Nat) : (r.unlink x).Alike (r'.unlink x) := by
  constructor <;> funext y
  · rw [next_unlink, next_unlink, h.next, h.prev]
  · rw [prev_unlink, prev_unlink, h.next, h.prev]

theorem next_relink (r : Rings) (x y : Nat) :
    (r.relink x).next.get y = if y = (if x = r.next.get x then x else r.prev.get x) then x else r.next.get y := by
  simp only [relink, Table.get_set]

theorem prev_relink (r : Rings) (x y : Nat) :
    (r.relink x).prev.get y = if y = r.next.get x then x else r.prev.get y := by
  simp only [relink, Table.get_set]

/-- What is hidden after a node is put back: that node and its right neighbour are not, and what else
remembers the same left neighbour is. -/
theorem hidden_relink (left : r.prev.get x ≠ x) (right : r.next.get x ≠ x) :
    (r.relink x).next.get ((r.relink x).prev.get y) ≠ y ↔
      y ≠ x ∧ y ≠ r.next.get x ∧
        (r.prev.get y = r.prev.get x ∨ r.next.get (r.prev.get y) ≠ y) := by
  rw [prev_relink, next_relink, if_neg (Ne.symm right)]
  grind

/-- No other node becomes its own neighbour when a node is put back. -/
theorem relink_apart (ne : y ≠ x) (left : r.prev.get y ≠ y) (right : r.next.get y ≠ y) :
    (r.relink x).prev.get y ≠ y ∧ (r.relink x).next.get y ≠ y := by
  rw [prev_relink, next_relink]
  grind

theorem Alike.relink (h : r.Alike r') (x : Nat) : (r.relink x).Alike (r'.relink x) := by
  constructor <;> funext y
  · rw [next_relink, next_relink, h.next, h.prev]
  · rw [prev_relink, prev_relink, h.next, h.prev]

/-- Putting a node back right after it was taken out restores every link. -/
theorem Linked.relink_unlink (h : r.Linked x) : ((r.unlink x).relink x).Alike r := by
  constructor <;> funext y
  · exact relink_unlink_next r x h.1 h.2 y
  · exact relink_unlink_prev r x h.1 h.2 y

/-- The path of rings that are linked alike. -/
theorem Path.congr (h : r.Path a xs b) (alike : r.Alike r') : r'.Path a xs b := by
  induction xs generalizing a with
  | nil => exact ⟨by rw [← alike.next, h.1], by rw [← alike.prev, h.2]⟩
  | cons x xs ih => exact ⟨⟨by rw [← alike.next, h.1.1], by rw [← alike.prev, h.1.2]⟩, ih h.2⟩

theorem Ring.congr (h : r.Ring x xs) (alike : r.Alike r') : r'.Ring x xs :=
  ⟨h.nodup, h.path.congr alike⟩

end DancingLinks.Rings
