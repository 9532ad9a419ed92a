import DancingLinks.Search.Run

/-!
# The search

A level of the search is done when no primary column is left. Otherwise it covers a column, and for
every row that uses the column it covers the row's other columns, searches the next level, and
uncovers them again. When the limit is reached no further row is tried at any level. Whatever breaks
a level off, what it covered is uncovered in reverse order: the columns of a row before the row is
given up, the column branched on before the level is left.
-/

namespace DancingLinks

/-- The columns that the row of an entry uses beside the entry's own, in the order of the row. -/
def Matrix.otherColumns (m : Matrix) (entry : Nat) : Except Fault (List Nat) := do
  let others ← m.nodesAfter .right entry
  return (others.filter (· != m.mesh.rowHeader.get entry)).map m.mesh.columnHeader.get

/-- The column that a selector picks among the primary columns left. -/
def Matrix.chooseColumn (m : Matrix) (s : Selector) : Except Fault Nat := do
  s.choose m.mesh.count (← m.primaryColumns)

namespace Search

/-- Reports the columns left, which are looked up only for a listener. -/
def sendColumns (o : Options) (level : Nat) : Search Unit :=
  if o.listener.isSome then do
    let primary ← ask (·.primaryColumns)
    let secondary ← ask (·.secondaryColumns)
    send o (.available level primary secondary)
  else pure ()

/-- Tries the row of an entry: searches `below` with the row's other columns covered. -/
def tryRow (o : Options) (level : Nat) (below : Search Bool) (entry : Nat) : Search Bool := do
  send o (.adding level entry)
  let columns ← ask (·.otherColumns entry)
  let (covered, outcome) ← coverEach [] columns
  ensuring
    (match outcome with
      | .ok () => below
      | .error fault => fail fault)
    (do
      uncoverEach covered
      send o (.removing level entry))

/-- Tries the rows of some entries until the limit is reached. The answer is whether a solution was
found, here or earlier. -/
def tryRows (o : Options) (attempt : Nat → Search Bool) (foundBefore : Bool) :
    List Nat → Search Bool
  | [] => pure foundBefore
  | entry :: entries => do
    if ← attempt entry then
      if ← limitReached o then pure true
      else tryRows o attempt true entries
    else tryRows o attempt foundBefore entries

/-- A level of the search, below which there is room for some more levels. The answer is whether a
solution was found. -/
def level (o : Options) : (room : Nat) → (progress : List Nat) → Search Bool
  | 0, _ => fail .tooDeep
  | room + 1, progress => do
    let depth := progress.length
    send o (.searching depth)
    if ← ask fun m => .ok m.isEmpty then
      send o (.found depth progress)
      record (← ask (·.capture progress))
      return true
    sendColumns o depth
    let column ← ask (·.chooseColumn o.selector)
    cover column
    send o (.chose depth column)
    ensuring
      (do
        let entries ← ask (·.nodesAfter .down column)
        tryRows o (fun entry => tryRow o depth (level o room (progress ++ [entry])) entry) false
          entries)
      (do
        uncover column
        send o (.uncovering depth column))

end Search

/-- What came of a search: the solutions or a fault, the matrix afterwards, and the events. -/
structure Outcome where
  result : Except Fault (List Solution)
  matrix : Matrix
  events : List Event

namespace Matrix

/-- Levels enough for any search. As long as columns are uncovered in the reverse order of their
covers there is at most one level per primary column; the square leaves room for the others. -/
def levels (m : Matrix) : Nat := (m.mesh.size + 1) * (m.mesh.size + 1)

/-- Searches a matrix for its exact covers. -/
def solve (m : Matrix) (o : Options) : Outcome :=
  match Search.level o m.levels [] { matrix := m } with
  | (.ok _, run) => ⟨.ok run.found.toList, run.matrix, run.events.toList⟩
  | (.error fault, run) => ⟨.error fault, run.matrix, run.events.toList⟩

end Matrix

/-! ## Questions -/

/-- Whether a puzzle has a solution, by a search for one. -/
def hasSolutions {α : Type} (solve : Options → Except Fault (List α)) : Except Fault Bool :=
  (solve (.withLimit .one)).map fun solutions => !solutions.isEmpty

/-- Whether a puzzle has exactly one solution, by a search for two. -/
def hasUniqueSolution {α : Type} (solve : Options → Except Fault (List α)) : Except Fault Bool :=
  (solve (.withLimit .two)).map fun solutions => solutions.length == 1

end DancingLinks
