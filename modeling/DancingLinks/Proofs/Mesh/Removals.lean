import DancingLinks.Proofs.Mesh.Visible

/-!
# Nodes that are taken out along either axis

Nodes are taken out of their rows and out of their columns in any order, but no node twice along the
same axis (`Mesh.Removable`). A node that was taken out keeps its links, and they go stale when its
neighbours are taken out too. What is kept is that every node which is still in is its neighbours'
neighbour (`Removable.drop`). So the rings that are left are the old ones without the nodes that were
taken out (`Removable.ring`), and the links of a node fit again when everything that was taken out after
it has been put back (`Removable.putBackAll`).

Nothing is asked of the headers that nodes name, nor of what these count. The main statement starts from
a mesh whose links lead back (`Mesh.Woven`): `removals_undone`.
-/

namespace DancingLinks

/-- The axes along which nodes are linked. -/
inductive Axis
  | horizontal
  | vertical
  deriving DecidableEq, Repr

/-- A node that is taken out of its ring along an axis. -/
structure Removal where
  axis : Axis
  node : Nat
  deriving DecidableEq, Repr

namespace Direction

/-- The axis of a direction. -/
def axis : Direction → Axis
  | left | right => .horizontal
  | up | down => .vertical

/-- The others of a ring, in the order in which a walk in some direction meets them. -/
def order (xs : List Nat) : Direction → List Nat
  | right | down => xs
  | left | up => xs.reverse

theorem order_opposite (xs : List Nat) (d : Direction) :
    d.opposite.order xs = (d.order xs).reverse := by
  cases d <;> simp [order, opposite]

theorem order_filter (xs : List Nat) (p : Nat → Bool) (d : Direction) :
    d.order (xs.filter p) = (d.order xs).filter p := by
  cases d <;> simp [order, List.filter_reverse]

theorem axis_opposite (d : Direction) : d.opposite.axis = d.axis := by cases d <;> rfl

end Direction

namespace Mesh

variable {m m' : Mesh} {a : Axis} {d : Direction} {r : Removal} {rs taken later : List Removal}
  {x : Nat} {xs : List Nat}

/-! ## Removals -/

/-- The rings along an axis. -/
def rings (m : Mesh) : Axis → Rings
  | .horizontal => m.horizontal
  | .vertical => m.vertical

/-- Takes a node out of its ring along an axis. -/
def takeOut (m : Mesh) (r : Removal) : Mesh :=
  match r.axis with
  | .horizontal => m.unlinkHorizontal r.node
  | .vertical => m.unlinkVertical r.node

/-- Puts a node back into its ring along an axis. -/
def putBack (m : Mesh) (r : Removal) : Mesh :=
  match r.axis with
  | .horizontal => m.relinkHorizontal r.node
  | .vertical => m.relinkVertical r.node

/-- Takes nodes out, one after the other. -/
def takeOutAll (m : Mesh) (rs : List Removal) : Mesh := rs.foldl takeOut m

/-- Puts nodes back in the reverse order, the last one first. -/
def putBackAll (m : Mesh) (rs : List Removal) : Mesh := rs.foldr (fun r m => m.putBack r) m

/-- The links of every node lead to nodes, and back. -/
structure Woven (m : Mesh) : Prop where
  bound : ∀ d, ∀ x < m.size, m.neighbor d x < m.size
  back : ∀ d, ∀ x < m.size, m.neighbor d.opposite (m.neighbor d x) = x

theorem rings_takeOut (m : Mesh) (r : Removal) (a : Axis) :
    (m.takeOut r).rings a = if r.axis = a then (m.rings a).unlink r.node else m.rings a := by
  obtain ⟨axis, node⟩ := r
  cases axis <;> cases a <;> rfl

theorem labels_takeOutAll (m : Mesh) (rs : List Removal) :
    (m.takeOutAll rs).labels = m.labels := by
  induction rs generalizing m with
  | nil => rfl
  | cons r rs ih =>
    have first : (m.takeOut r).labels = m.labels := by
      obtain ⟨axis, node⟩ := r
      cases axis <;> rfl
    exact (ih (m.takeOut r)).trans first

theorem takeOutAll_append (m : Mesh) (taken later : List Removal) :
    m.takeOutAll (taken ++ later) = (m.takeOutAll taken).takeOutAll later :=
  List.foldl_append

theorem Alike.putBack (h : m.Alike m') (r : Removal) : (m.putBack r).Alike (m'.putBack r) := by
  obtain ⟨axis, node⟩ := r
  cases axis with
  | horizontal => exact h.relinkHorizontal node
  | vertical => exact h.relinkVertical node

/-- Putting a node back right after it was taken out restores the mesh. -/
theorem putBack_takeOut (linked : (m.rings r.axis).Linked r.node) :
    ((m.takeOut r).putBack r).Alike m := by
  obtain ⟨axis, node⟩ := r
  cases axis with
  | horizontal => exact relinkHorizontal_unlinkHorizontal linked
  | vertical => exact relinkVertical_unlinkVertical linked

/-! ## What can be taken out -/

/-- Nodes that are in their rings and can be taken out one after the other. -/
structure Removable (m : Mesh) (rs : List Removal) : Prop where
  distinct : rs.Nodup
  linked : ∀ r ∈ rs, (m.rings r.axis).Linked r.node

namespace Removable

/-- After the first node is taken out, the others can still be. -/
theorem tail (h : m.Removable (r :: rs)) : (m.takeOut r).Removable rs := by
  obtain ⟨other, distinct⟩ := List.nodup_cons.1 h.distinct
  obtain ⟨first, rest⟩ := List.forall_mem_cons.1 h.linked
  refine ⟨distinct, fun s mem => ?_⟩
  rw [rings_takeOut]
  split
  · next same =>
    have ne : s.node ≠ r.node := by
      intro node
      have : s = r := by
        cases s
        cases r
        cases same
        cases node
        rfl
      exact other (this ▸ mem)
    exact (rest s mem).unlink (same ▸ first) ne
  · exact rest s mem

/-- After some nodes are taken out, the later ones can still be. -/
theorem drop (h : m.Removable (taken ++ later)) : (m.takeOutAll taken).Removable later := by
  induction taken generalizing m with
  | nil => exact h
  | cons r taken ih => exact ih h.tail

/-- The ring of a node that is still in is what it was, without the nodes that were taken out. -/
theorem ring (h : m.Removable taken) (still : ⟨a, x⟩ ∉ taken) (ring : (m.rings a).Ring x xs) :
    ((m.takeOutAll taken).rings a).Ring x (xs.filter fun y => ⟨a, y⟩ ∉ taken) := by
  induction taken generalizing m xs with
  | nil =>
    rw [List.filter_eq_self.2 fun y _ => decide_eq_true List.not_mem_nil]
    exact ring
  | cons r taken ih =>
    obtain ⟨ne, still⟩ := not_or.1 (mt List.mem_cons.2 still)
    have first := h.linked r List.mem_cons_self
    have one : ((m.takeOut r).rings a).Ring x (xs.filter fun y => ⟨a, y⟩ ≠ r) := by
      obtain ⟨axis, node⟩ := r
      rw [rings_takeOut]
      split
      · next same =>
        cases same
        have other : node ≠ x := fun eq => ne (eq ▸ rfl)
        simpa using ring.unlink first other
      · next differ =>
        have all : (xs.filter fun y => (⟨a, y⟩ : Removal) ≠ ⟨axis, node⟩) = xs :=
          List.filter_eq_self.2 fun y _ =>
            decide_eq_true fun same => differ (congrArg Removal.axis same).symm
        rwa [all]
    have both : (xs.filter fun y => ⟨a, y⟩ ≠ r).filter (fun y => ⟨a, y⟩ ∉ taken)
        = xs.filter fun y => ⟨a, y⟩ ∉ r :: taken := by
      rw [List.filter_filter]
      exact List.filter_congr fun y _ => by simp [Bool.and_comm]
    exact both ▸ ih h.tail still one

/-- Putting everything back in the reverse order restores the mesh. -/
theorem putBackAll (h : m.Removable rs) : ((m.takeOutAll rs).putBackAll rs).Alike m := by
  induction rs generalizing m with
  | nil => exact .refl m
  | cons r rs ih =>
    have others := (ih h.tail).putBack r
    exact others.trans (putBack_takeOut (h.linked r List.mem_cons_self))

end Removable

/-! ## Meshes whose links lead back -/

theorem Woven.closed (woven : m.Woven) (a : Axis) : (m.rings a).Closed m.size := by
  cases a with
  | horizontal =>
    exact ⟨woven.bound .right, fun x lt => ⟨woven.back .left x lt, woven.back .right x lt⟩⟩
  | vertical => exact ⟨woven.bound .down, fun x lt => ⟨woven.back .up x lt, woven.back .down x lt⟩⟩

/-- A walk in some direction meets the nodes of the ring along its axis. -/
theorem nodesAfter_of_ring (ring : (m.rings d.axis).Ring x xs)
    (bound : ∀ y ∈ x :: xs, y < m.size) : m.nodesAfter d x = some (d.order xs) := by
  have enough := length_lt_size ring.nodup bound
  cases d with
  | right => exact ring.walk_next enough
  | left => exact ring.walk_prev enough
  | down => exact ring.walk_next enough
  | up => exact ring.walk_prev enough

/-- Nodes are taken out of a mesh whose links lead back, none of them twice along the same axis. After
any number of removals a walk from a node which is still in meets the nodes that it met before, without
those that were taken out, and the walk in the opposite direction meets them in reverse. Putting the
latest nodes back in the reverse order gives every link and every count that there was before them. -/
theorem removals_undone (woven : m.Woven) (distinct : rs.Nodup) (nodes : ∀ r ∈ rs, r.node < m.size)
    (split : taken ++ later = rs) :
    (∀ d, ∀ x < m.size, ⟨d.axis, x⟩ ∉ taken → ∃ others,
      m.nodesAfter d x = some others ∧
      (m.takeOutAll taken).nodesAfter d x
        = some (others.filter fun y => ⟨d.axis, y⟩ ∉ taken) ∧
      (m.takeOutAll taken).nodesAfter d.opposite x
        = some (others.filter fun y => ⟨d.axis, y⟩ ∉ taken).reverse) ∧
    ((m.takeOutAll rs).putBackAll later).Alike (m.takeOutAll taken) ∧
    ((m.takeOutAll rs).putBackAll rs).Alike m := by
  have removable : m.Removable rs :=
    ⟨distinct, fun r mem => (woven.closed r.axis).linked r.node (nodes r mem)⟩
  subst split
  refine ⟨fun d x lt still => ?_, ?_, removable.putBackAll⟩
  · have front : m.Removable taken :=
      ⟨(List.nodup_append.1 distinct).1, fun r mem => removable.linked r (List.mem_append_left _ mem)⟩
    obtain ⟨xs, ring, bound⟩ := (woven.closed d.axis).exists_ring lt
    have left := front.ring still ring
    have bound' : ∀ y ∈ x :: xs.filter (fun y => ⟨d.axis, y⟩ ∉ taken),
        y < (m.takeOutAll taken).size := by
      intro y mem
      rw [size, labels_takeOutAll]
      refine bound y ((List.mem_cons.1 mem).elim (fun same => same ▸ List.mem_cons_self) fun mem => ?_)
      exact List.mem_cons_of_mem _ (List.mem_filter.1 mem).1
    refine ⟨d.order xs, nodesAfter_of_ring ring bound, ?_, ?_⟩
    · rw [nodesAfter_of_ring left bound', Direction.order_filter]
    · rw [nodesAfter_of_ring (d.axis_opposite ▸ left) bound', Direction.order_opposite,
        Direction.order_filter]
  · rw [takeOutAll_append]
    exact removable.drop.putBackAll

/-- A row of three nodes. The first two are a column, and the third one names the second as its header
without being below it. -/
def threeNodes : Mesh :=
  let nodes := ((empty.addNode (some "A")).addNode none).addNode none
  let linked := ((nodes.insertRight 0 1).insertRight 1 2).insertDown 0 1
  { linked with columnHeader := linked.columnHeader.set 2 1 }

/-- The row is taken out whole, and in between a node is taken out of its column, and the node that is
alone in its own. -/
def fiveRemovals : List Removal :=
  [⟨.horizontal, 1⟩, ⟨.vertical, 1⟩, ⟨.horizontal, 0⟩, ⟨.vertical, 2⟩, ⟨.horizontal, 2⟩]

theorem removals_undone_sample :
    (threeNodes.takeOutAll (fiveRemovals.take 2)).nodesAfter .left 2 = some [0] ∧
      (threeNodes.takeOutAll fiveRemovals).count 1 = -1 ∧
      ((threeNodes.takeOutAll fiveRemovals).putBackAll fiveRemovals).Alike threeNodes := by
  have woven : threeNodes.Woven :=
    ⟨fun d => by cases d <;> decide, fun d => by cases d <;> decide⟩
  have distinct : fiveRemovals.Nodup := by decide
  obtain ⟨walks, -, restored⟩ :=
    removals_undone woven distinct (by decide) (List.take_append_drop 2 fiveRemovals)
  obtain ⟨others, before, left, -⟩ := walks .left 2 (by decide) (by decide)
  have same : others = [1, 0] := Option.some.inj (before.symm.trans (by decide))
  subst same
  exact ⟨left, rfl, restored⟩

end Mesh

end DancingLinks
