import DancingLinks.Matrix.Cover
import DancingLinks.Search.Solution

/-!
# Runs

A search rewires a matrix, collects solutions and reports events; a fault breaks it off but does
not undo what was done. `Search α` is a step of it: from the state of the run to a value or a fault,
and the state afterwards in either case. `ensuring` runs a cleanup whatever came of a step.
-/

namespace DancingLinks

/-- The state of a search. -/
structure Run where
  matrix : Matrix
  found : Array Solution := #[]
  events : Array Event := #[]

/-- A step of a search. -/
def Search (α : Type) : Type := Run → Except Fault α × Run

namespace Search

variable {α β : Type}

instance : Monad Search where
  pure a := fun run => (.ok a, run)
  bind step next := fun run =>
    match step run with
    | (.ok a, run) => next a run
    | (.error fault, run) => (.error fault, run)

theorem pure_apply (a : α) (run : Run) : (pure a : Search α) run = (.ok a, run) := rfl

theorem bind_apply (step : Search α) (next : α → Search β) (run : Run) :
    (step >>= next) run =
      match step run with
      | (.ok a, run) => next a run
      | (.error fault, run) => (.error fault, run) := rfl

/-- Breaks the search off. -/
def fail (fault : Fault) : Search α := fun run => (.error fault, run)

/-- The answer to a question about the matrix, which is not changed. -/
def ask (question : Matrix → Except Fault α) : Search α := fun run => (question run.matrix, run)

/-- Does a step, and then the cleanup whatever came of it. A fault of the cleanup hides the outcome
of the step. -/
def ensuring (step : Search α) (cleanup : Search Unit) : Search α := fun run =>
  match step run with
  | (outcome, run) =>
    match cleanup run with
    | (.ok (), run) => (outcome, run)
    | (.error fault, run) => (.error fault, run)

/-- Reports an event to the listener, if there is one. -/
def send (o : Options) (event : Event) : Search Unit := fun run =>
  match o.listener with
  | none => (.ok (), run)
  | some listener =>
    let number := run.events.size
    let run := { run with events := run.events.push event }
    (if listener.accepts number event then .ok () else .error .refused, run)

/-- Covers a column. -/
def cover (c : Nat) : Search Unit := fun run =>
  match run.matrix.coverPlan c with
  | .ok nodes => (.ok (), { run with matrix := run.matrix.hide c nodes })
  | .error fault => (.error fault, run)

/-- Uncovers a column. -/
def uncover (c : Nat) : Search Unit := fun run =>
  match run.matrix.uncoverPlan c with
  | .ok nodes => (.ok (), { run with matrix := run.matrix.reveal c nodes })
  | .error fault => (.error fault, run)

/-- Covers columns until one of them is refused. The columns that were covered come back, the latest
first, with the outcome. -/
def coverEach (covered : List Nat) : List Nat → Search (List Nat × Except Fault Unit)
  | [] => pure (covered, .ok ())
  | c :: cs => fun run =>
    match cover c run with
    | (.ok (), run) => coverEach (c :: covered) cs run
    | (.error fault, run) => (.ok (covered, .error fault), run)

/-- Uncovers columns in order. -/
def uncoverEach : List Nat → Search Unit
  | [] => pure ()
  | c :: cs => do
    uncover c
    uncoverEach cs

/-- Adds a solution to those found. -/
def record (solution : Solution) : Search Unit := fun run =>
  (.ok (), { run with found := run.found.push solution })

/-- As many solutions were found as the limit asks for. -/
def limitReached (o : Options) : Search Bool := fun run =>
  (.ok (match o.limit with
    | some limit => limit.count ≤ run.found.size
    | none => false), run)

end Search

end DancingLinks
