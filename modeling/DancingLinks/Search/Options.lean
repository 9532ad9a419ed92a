import DancingLinks.Fault
import DancingLinks.Text.Blank

/-!
# Search options

How a search goes about its work: which column it branches on (`Selector`), after how many solutions
it stops (`Limit`, which is never zero), and who listens to its messages (`Listener`).
-/

namespace DancingLinks

/-! ## Selectors -/

/-- Which of the columns left a search branches on. -/
inductive Selector
  /-- The leftmost column. -/
  | first
  /-- The leftmost of the columns with the fewest rows left. -/
  | smaller
  deriving DecidableEq, Repr

namespace Selector

/-- The name of a selector. -/
def name : Selector → String
  | first => "first"
  | smaller => "smaller"

/-- The selector with some name; blanks around it and the case of its letters do not matter. Only
ASCII letters have a small letter that occurs in a name. -/
def ofName (text : String) : Except Fault Selector :=
  let small := (Text.trimChars text.toList).map Char.toLower
  if small = first.name.toList then .ok first
  else if small = smaller.name.toList then .ok smaller
  else .error (.unknownSelector text)

/-- The first element with the least key, `best` standing before the others. -/
def least {α : Type} (key : α → Int) (best : α) : List α → α
  | [] => best
  | x :: xs => least key (if key x < key best then x else best) xs

/-- The element that a selector picks when `key` counts the rows; there is none among no elements.
-/
def choose? {α : Type} (key : α → Int) : Selector → List α → Option α
  | _, [] => none
  | first, x :: _ => some x
  | smaller, x :: xs => some (least key x xs)

/-- The element that a selector picks, of which there must be one. -/
def choose {α : Type} (key : α → Int) (s : Selector) (xs : List α) : Except Fault α :=
  match s.choose? key xs with
  | some x => .ok x
  | none => .error .noColumn

/-- The least element is one of those compared. -/
theorem least_mem {α : Type} (key : α → Int) (best : α) (xs : List α) :
    least key best xs ∈ best :: xs := by
  induction xs generalizing best with
  | nil => simp [least]
  | cons x xs ih =>
    have := ih (if key x < key best then x else best)
    grind [least]

/-- No element has a smaller key. -/
theorem key_least_le {α : Type} (key : α → Int) (best : α) (xs : List α) :
    ∀ x ∈ best :: xs, key (least key best xs) ≤ key x := by
  induction xs generalizing best with
  | nil => simp [least]
  | cons y ys ih =>
    have := ih (if key y < key best then y else best)
    grind [least]

end Selector

/-! ## Limits -/

/-- How many solutions a search looks for: at least one. -/
structure Limit where
  count : Nat
  positive : 0 < count := by decide
  deriving DecidableEq

/-- The limit of a search that only asks for a solution. -/
def Limit.one : Limit := ⟨1, by decide⟩

/-- The limit of a search that only asks for a second solution. -/
def Limit.two : Limit := ⟨2, by decide⟩

/-- What may be given as a limit. Only integers can be one; the others are kept as they are shown.
-/
inductive LimitInput
  | whole (n : Int)
  | decimal (numeral : String)
  | flag (value : Bool)
  | text (content : String)
  deriving DecidableEq, Repr

/-- How the input is shown. -/
def LimitInput.shown : LimitInput → String
  | whole n => toString n
  | decimal numeral => numeral
  | flag true => "True"
  | flag false => "False"
  | text content => Text.quoted content

/-- The limit that an input gives: a positive integer. -/
def Limit.ofInput (input : LimitInput) : Except Fault Limit :=
  match input with
  | .whole n => if h : 0 < n.toNat then .ok ⟨n.toNat, h⟩ else .error (.badLimit input.shown)
  | _ => .error (.badLimit input.shown)

/-! ## Messages and listeners -/

/-- What a search reports while it runs; nodes are given by their numbers. -/
inductive Event
  /-- A level of the search begins. -/
  | searching (level : Nat)
  /-- No primary column is left: the chosen entries are a solution. -/
  | found (level : Nat) (progress : List Nat)
  /-- The columns left at a level. -/
  | available (level : Nat) (primary secondary : List Nat)
  /-- The column to branch on was covered. -/
  | chose (level column : Nat)
  /-- A row that uses the column, given by its entry there, is tried. -/
  | adding (level entry : Nat)
  /-- The row was tried. -/
  | removing (level entry : Nat)
  /-- All rows were tried, and the column was uncovered. -/
  | uncovering (level column : Nat)
  deriving DecidableEq, Repr

/-- Somebody who hears the events of a search. A listener may refuse an event, which breaks the
search off; it may tell events apart by their number in the run. -/
structure Listener where
  accepts : (number : Nat) → Event → Bool

/-- The listener that accepts every event. -/
def Listener.patient : Listener := ⟨fun _ _ => true⟩

/-- How a search goes about its work. -/
structure Options where
  selector : Selector := .smaller
  limit : Option Limit := none
  listener : Option Listener := none

/-- The options of a search for a number of solutions. -/
def Options.withLimit (limit : Limit) : Options := { limit := some limit }

end DancingLinks
