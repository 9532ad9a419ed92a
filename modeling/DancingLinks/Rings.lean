import DancingLinks.Table

/-!
# Rings

Nodes along one axis are linked to a successor and a predecessor. `Rings` holds both links of
every node; a node that was never linked is a ring of its own. `unlink` takes a node out of its
ring but leaves its own two links as they are, and `relink` uses them to put it back, so a
removal can be undone as long as removals are undone in reverse order
(`Rings.relink_unlink_next`, `Rings.relink_unlink_prev`).

Each operation writes its links one after the other and reads them afresh in between: a node may be
its own neighbour, and a node may be inserted next to itself.
-/

namespace DancingLinks

/-- The two links of every node along one axis. -/
structure Rings where
  next : Table (id : Nat → Nat)
  prev : Table (id : Nat → Nat)

namespace Rings

/-- Every node alone in its ring. -/
def alone : Rings := ⟨.empty, .empty⟩

instance : Inhabited Rings := ⟨alone⟩

/-- Puts `y` between `x` and the successor of `x`. -/
def insertAfter (r : Rings) (x y : Nat) : Rings :=
  let r := { r with next := r.next.set y (r.next.get x) }
  let r := { r with prev := r.prev.set y x }
  let r := { r with prev := r.prev.set (r.next.get x) y }
  { r with next := r.next.set x y }

/-- Takes `x` out: its neighbours pass it by, its own links stay. -/
def unlink (r : Rings) (x : Nat) : Rings :=
  let r := { r with next := r.next.set (r.prev.get x) (r.next.get x) }
  { r with prev := r.prev.set (r.next.get x) (r.prev.get x) }

/-- Puts `x` back between the neighbours its own links remember. -/
def relink (r : Rings) (x : Nat) : Rings :=
  let r := { r with prev := r.prev.set (r.next.get x) x }
  { r with next := r.next.set (r.prev.get x) x }

/-- What lies on the way from `x` along `step` before `stop`, or `none` when `fuel` steps do not
lead to `stop`. -/
def walk (step : Nat → Nat) (stop : Nat) : (fuel : Nat) → (x : Nat) → Option (List Nat)
  | 0, _ => none
  | fuel + 1, x => if x = stop then some [] else (walk step stop fuel (step x)).map (x :: ·)

/-- A longer walk finds what a shorter one found. -/
theorem walk_mono {step : Nat → Nat} {stop x fuel more : Nat} {nodes : List Nat}
    (h : walk step stop fuel x = some nodes) (le : fuel ≤ more) :
    walk step stop more x = some nodes := by
  induction fuel generalizing x more nodes with
  | zero => simp [walk] at h
  | succ fuel ih =>
    obtain ⟨more, rfl⟩ : ∃ k, more = k + 1 := ⟨more - 1, by omega⟩
    unfold walk at h ⊢
    split
    · next stopped => simpa [stopped] using h
    · next going =>
      simp only [going, if_false, Option.map_eq_some_iff] at h
      obtain ⟨rest, found, rfl⟩ := h
      simp [ih found (Nat.le_of_succ_le_succ le)]

/-- A node that is its neighbours' neighbour gets its successors back. -/
theorem relink_unlink_next (r : Rings) (x : Nat) (hn : r.next.get (r.prev.get x) = x)
    (hp : r.prev.get (r.next.get x) = x) (y : Nat) :
    ((r.unlink x).relink x).next.get y = r.next.get y := by
  simp only [unlink, relink, Table.get_set]
  grind

/-- A node that is its neighbours' neighbour gets its predecessors back. -/
theorem relink_unlink_prev (r : Rings) (x : Nat) (hn : r.next.get (r.prev.get x) = x)
    (hp : r.prev.get (r.next.get x) = x) (y : Nat) :
    ((r.unlink x).relink x).prev.get y = r.prev.get y := by
  simp only [unlink, relink, Table.get_set]
  grind

end Rings

end DancingLinks
