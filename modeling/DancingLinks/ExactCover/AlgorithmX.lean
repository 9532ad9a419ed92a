import DancingLinks.ExactCover
import DancingLinks.Search.Options

/-!
# Algorithm X

The recursion that finds the covers of a problem: branch on a primary column, try every choice that
uses it, and solve what is left. `Problem.covers` lists them in the order in which they are found,
with the columns of every choice turned so that they start with the column that was branched on.
-/

namespace DancingLinks

variable {κ : Type} [DecidableEq κ]

/-- The choice with its columns turned so that they start with `c`. -/
def Choice.startingAt (r : Choice κ) (c : κ) : Choice κ :=
  ⟨r.number, r.name, r.columns.dropWhile (· ≠ c) ++ r.columns.takeWhile (· ≠ c)⟩

namespace Problem

/-- The column that a selector branches on, which counts the choices that use a column. -/
def pivot? (p : Problem κ) (s : Selector) : Option κ :=
  s.choose? (fun c => (uses p.choices c : Int)) p.primary

/-- The covers of the problem, found in at most `room` levels. -/
def coversWithin (s : Selector) : (room : Nat) → Problem κ → List (List (Choice κ))
  | 0, _ => []
  | room + 1, p =>
    match p.pivot? s with
    | none => [[]]
    | some c =>
      (p.choices.filter (c ∈ ·.columns)).flatMap fun r =>
        (coversWithin s room (p.without r.columns)).map (r.startingAt c :: ·)

/-- The covers of the problem. Every level covers a primary column, so there are no more levels than
primary columns, and the one that finds nothing left. -/
def covers (p : Problem κ) (s : Selector) : List (List (Choice κ)) :=
  p.coversWithin s (p.primary.length + 1)

example :
    let choices : List (Choice String) := [⟨1, "p", ["A", "X"]⟩, ⟨2, "q", ["C", "B"]⟩,
      ⟨3, "r", ["X", "B"]⟩, ⟨4, "s", ["C"]⟩, ⟨5, "t", ["A"]⟩]
    (Problem.mk ["A", "B", "C"] ["X"] choices).covers .first
      = [[⟨1, "p", ["A", "X"]⟩, ⟨2, "q", ["B", "C"]⟩],
        [⟨5, "t", ["A"]⟩, ⟨2, "q", ["B", "C"]⟩],
        [⟨5, "t", ["A"]⟩, ⟨3, "r", ["B", "X"]⟩, ⟨4, "s", ["C"]⟩]] := by
  decide +kernel

end Problem

end DancingLinks
