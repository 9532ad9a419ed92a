import DancingLinks.Search

/-!
# The trace of a search

What a listener hears of a search that comes to its end, as a grammar (`Trace`): a level is begun
and then either a solution is found, or a column is chosen, rows are tried, each with a level of its
own, and the column is uncovered. The grammar is over whatever events are shown as, so that it
speaks of the texts of messages too.
-/

namespace DancingLinks

namespace Event

/-- The entries that make up a solution, when one is found. -/
def progress? : Event → Option (List Nat)
  | found _ progress => some progress
  | _ => none

/-- The event ends what an earlier one began. -/
def closes : Event → Bool
  | removing .. => true
  | uncovering .. => true
  | _ => false

end Event

/-- The entry of each chosen row in the column that was branched on. -/
def Solution.pivots (s : Solution) : List (Option Nat) := s.rows.map List.head?

mutual

/-- What is heard of a level and those below it. -/
inductive Trace {α : Type} (say : Event → α) : (level : Nat) → List α → Prop
  /-- No primary column is left. -/
  | found (level : Nat) (progress : List Nat) :
      Trace say level [say (.searching level), say (.found level progress)]
  /-- A column is branched on. -/
  | branch (level column : Nat) (primary secondary : List Nat) {rows : List α} :
      RowTraces say level rows →
      Trace say level ([say (.searching level), say (.available level primary secondary),
        say (.chose level column)] ++ rows ++ [say (.uncovering level column)])

/-- What is heard of the rows that are tried at a level. -/
inductive RowTraces {α : Type} (say : Event → α) : (level : Nat) → List α → Prop
  /-- No further row is tried. -/
  | done (level : Nat) : RowTraces say level []
  /-- A row is tried, and then others. -/
  | tried (level entry : Nat) {below rows : List α} :
      Trace say (level + 1) below → RowTraces say level rows →
      RowTraces say level
        ([say (.adding level entry)] ++ below ++ [say (.removing level entry)] ++ rows)

end

end DancingLinks
