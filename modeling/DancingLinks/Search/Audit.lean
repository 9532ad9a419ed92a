import DancingLinks.Search

/-!
# A search that is watched

`Audited.level` is a level of the search that keeps a record of everything it does with the links of
the matrix: the levels it enters, the rings it walks around, the columns it has a selector pick
from, and the columns it covers and uncovers, each with the matrix at that moment (`Entry`). The
record changes nothing: without it this is the search.

What each operation demands of the matrix is said by `Entry.Sound`.
-/

namespace DancingLinks

/-- What a search does with a matrix. -/
inductive Operation
  /-- A level of the search begins. -/
  | enter (level : Nat)
  /-- The other nodes of a ring are met, from a node on. -/
  | walk (way : Direction) (node : Nat)
  /-- A selector picks one of some columns. -/
  | select (columns : List Nat)
  /-- The column is to be covered. -/
  | cover (column : Nat)
  /-- The column is to be uncovered. -/
  | uncover (column : Nat)
  deriving DecidableEq, Repr

/-- An operation, and the matrix it is done on. -/
structure Entry where
  matrix : Matrix
  operation : Operation

/-- What an operation demands, when no level may be deeper than some bound: a ring that is walked
around leads back to its start, a selector has something to pick from, and only headers of columns
that are not covered are covered, only those of covered columns uncovered. -/
def Entry.Sound (bound : Nat) (e : Entry) : Prop :=
  match e.operation with
  | .enter level => level ≤ bound
  | .walk way node => ∃ nodes, e.matrix.nodesAfter way node = .ok nodes
  | .select columns => columns ≠ []
  | .cover column => e.matrix.isCovered column = .ok false
  | .uncover column => e.matrix.isCovered column = .ok true

/-- Refuses a column that is covered. -/
def Matrix.checkUncovered (m : Matrix) (c : Nat) : Except Fault Unit := do
  if ← m.isCovered c then throw (.alreadyCovered (m.mesh.shown c))

/-- Refuses a column that is not covered. -/
def Matrix.checkCovered (m : Matrix) (c : Nat) : Except Fault Unit := do
  if !(← m.isCovered c) then throw (.notCovered (m.mesh.shown c))

/-- Changes the links of the matrix. -/
def Search.rewire (change : Matrix → Matrix) : Search Unit := fun run =>
  (.ok (), { run with matrix := change run.matrix })

/-- A step of a search, and the record of what it did with the matrix. -/
def Audited (α : Type) : Type := Run → (Except Fault α × Run) × List Entry

namespace Audited

variable {α β : Type}

instance : Monad Audited where
  pure a := fun run => ((.ok a, run), [])
  bind step next := fun run =>
    match step run with
    | ((.ok a, run), record) => ((next a run).1, record ++ (next a run).2)
    | ((.error fault, run), record) => ((.error fault, run), record)

theorem bind_apply (step : Audited α) (next : α → Audited β) (run : Run) :
    (step >>= next) run =
      match step run with
      | ((.ok a, run), record) => ((next a run).1, record ++ (next a run).2)
      | ((.error fault, run), record) => ((.error fault, run), record) := rfl

/-- A step that does nothing with the links of the matrix. -/
def plain (step : Search α) : Audited α := fun run => (step run, [])

/-- An operation that asks something of the matrix. -/
def does (operation : Operation) (question : Matrix → Except Fault α) : Audited α := fun run =>
  ((question run.matrix, run), [⟨run.matrix, operation⟩])

/-- Does a step, and then the cleanup whatever came of it. -/
def ensuring (step : Audited α) (cleanup : Audited Unit) : Audited α := fun run =>
  match step run with
  | ((outcome, run), record) =>
    match cleanup run with
    | ((.ok (), run), more) => ((outcome, run), record ++ more)
    | ((.error fault, run), more) => ((.error fault, run), record ++ more)

/-- What is found out from each of some things. -/
def each (find : α → Audited β) : List α → Audited (List β)
  | [] => pure []
  | x :: xs => do
    let y ← find x
    let ys ← each find xs
    return y :: ys

/-! ## Operations -/

/-- The other nodes of a ring, met from a node on. -/
def walk (way : Direction) (node : Nat) : Audited (List Nat) :=
  does (.walk way node) (·.nodesAfter way node)

/-- The columns that the row of an entry uses beside the entry's own. -/
def otherColumns (entry : Nat) : Audited (List Nat) := do
  let others ← walk .right entry
  plain (Search.ask fun m => .ok
    ((others.filter (· != m.mesh.rowHeader.get entry)).map m.mesh.columnHeader.get))

/-- The column that a selector picks among the primary columns left. -/
def chooseColumn (s : Selector) : Audited Nat := do
  let columns ← walk .right Matrix.primaryRoot
  does (.select columns) fun m => s.choose m.mesh.count columns

/-- The body nodes of the row of an entry, from that entry on. -/
def entryRow (entry : Nat) : Audited (List Nat) := do
  let others ← walk .right entry
  plain (Search.ask fun m => .ok ((entry :: others).filter fun node => !m.mesh.isHeader node))

/-- The solution that some chosen entries make. -/
def capture (progress : List Nat) : Audited Solution := do
  return ⟨← each entryRow progress⟩

/-- The nodes met from the entries of a column along their rows. -/
def rowMates (along across : Direction) (c : Nat) : Audited (List Nat) := do
  let entries ← walk along c
  return (← each (walk across) entries).flatten

/-- The nodes that covering a column takes out. -/
def coverPlan (c : Nat) : Audited (List Nat) := do
  does (.cover c) (·.checkUncovered c)
  rowMates .down .right c

/-- The nodes that uncovering a column puts back. -/
def uncoverPlan (c : Nat) : Audited (List Nat) := do
  does (.uncover c) (·.checkCovered c)
  rowMates .up .left c

/-- Covers a column. -/
def cover (c : Nat) : Audited Unit := do
  let nodes ← coverPlan c
  plain (Search.rewire (·.hide c nodes))

/-- Uncovers a column. -/
def uncover (c : Nat) : Audited Unit := do
  let nodes ← uncoverPlan c
  plain (Search.rewire (·.reveal c nodes))

/-- Covers columns until one of them is refused. The columns that were covered come back, the latest
first, with the outcome. -/
def coverEach (covered : List Nat) : List Nat → Audited (List Nat × Except Fault Unit)
  | [] => pure (covered, .ok ())
  | c :: cs => fun run =>
    match cover c run with
    | ((.ok (), run), record) =>
      ((coverEach (c :: covered) cs run).1, record ++ (coverEach (c :: covered) cs run).2)
    | ((.error fault, run), record) => ((.ok (covered, .error fault), run), record)

/-- Uncovers columns in order. -/
def uncoverEach : List Nat → Audited Unit
  | [] => pure ()
  | c :: cs => do
    uncover c
    uncoverEach cs

/-! ## The search -/

/-- Reports the columns left, which are looked up only for a listener. -/
def sendColumns (o : Options) (level : Nat) : Audited Unit :=
  if o.listener.isSome then do
    let primary ← walk .right Matrix.primaryRoot
    let secondary ← walk .right Matrix.secondaryRoot
    plain (Search.send o (.available level primary secondary))
  else pure ()

/-- Tries the row of an entry: searches `below` with the row's other columns covered. -/
def tryRow (o : Options) (level : Nat) (below : Audited Bool) (entry : Nat) : Audited Bool := do
  plain (Search.send o (.adding level entry))
  let columns ← otherColumns entry
  let (covered, outcome) ← coverEach [] columns
  ensuring
    (match outcome with
      | .ok () => below
      | .error fault => plain (Search.fail fault))
    (do
      uncoverEach covered
      plain (Search.send o (.removing level entry)))

/-- Tries the rows of some entries until the limit is reached. -/
def tryRows (o : Options) (attempt : Nat → Audited Bool) (foundBefore : Bool) :
    List Nat → Audited Bool
  | [] => pure foundBefore
  | entry :: entries => do
    if ← attempt entry then
      if ← plain (Search.limitReached o) then pure true
      else tryRows o attempt true entries
    else tryRows o attempt foundBefore entries

/-- A level of the search, below which there is room for some more levels. -/
def level (o : Options) : (room : Nat) → (progress : List Nat) → Audited Bool
  | 0, _ => plain (Search.fail .tooDeep)
  | room + 1, progress => do
    let depth := progress.length
    does (.enter depth) fun _ => .ok ()
    plain (Search.send o (.searching depth))
    if ← plain (Search.ask fun m => .ok m.isEmpty) then
      plain (Search.send o (.found depth progress))
      plain (Search.record (← capture progress))
      return true
    sendColumns o depth
    let column ← chooseColumn o.selector
    cover column
    plain (Search.send o (.chose depth column))
    ensuring
      (do
        let entries ← walk .down column
        tryRows o (fun entry => tryRow o depth (level o room (progress ++ [entry])) entry) false
          entries)
      (do
        uncover column
        plain (Search.send o (.uncovering depth column)))

end Audited

/-- What a search with room for some levels does with the links of a matrix. -/
def Matrix.audit (m : Matrix) (o : Options) (room : Nat) : List Entry :=
  (Audited.level o room [] { matrix := m }).2

end DancingLinks
