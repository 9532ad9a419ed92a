/-!
# The gallery

What the viewer shows: the menu, or one of the boards found for a puzzle. Going back to the menu
keeps the boards; showing a puzzle replaces all that was known of the one before.
-/

namespace DancingLinks.Viewer

/-- A symbol on a square of a shown board, with row and column counted from zero. -/
structure Mark where
  row : Int
  column : Int
  symbol : String
  deriving DecidableEq, Repr, Inhabited

/-- The boards found for a puzzle. -/
structure Exhibit where
  title : String := ""
  boards : List (List String) := []
  /-- The squares that the puzzle fixed. -/
  givens : List Mark := []
  /-- Whatever stands on a square is a queen. -/
  queens : Bool := false
  deriving DecidableEq, Repr, Inhabited

/-- Which part of the viewer is open. -/
inductive Mode
  | menu
  | board
  deriving DecidableEq, Repr, Inhabited

/-- The menu or a board, and the boards that can be paged through. -/
structure Gallery where
  mode : Mode := .menu
  exhibit : Exhibit := {}
  /-- The number of the board that is shown, counted from zero. -/
  index : Nat := 0
  deriving DecidableEq, Repr, Inhabited

namespace Gallery

/-- Shows the first board of a puzzle. -/
def display (exhibit : Exhibit) : Gallery := ⟨.board, exhibit, 0⟩

/-- Goes on to the next board, if there is one. -/
def next (g : Gallery) : Gallery :=
  if g.index + 1 < g.exhibit.boards.length then { g with index := g.index + 1 } else g

/-- Goes back to the previous board, if there is one. -/
def previous (g : Gallery) : Gallery := { g with index := g.index - 1 }

/-- Opens the menu. -/
def openMenu (g : Gallery) : Gallery := { g with mode := .menu }

/-- The board that is shown. -/
def current? (g : Gallery) : Option (List String) := g.exhibit.boards[g.index]?

end Gallery

/-- The symbols on a line of text from some column on. -/
def marksOnLine (row column : Int) : List Char → List Mark
  | [] => []
  | c :: cs =>
    let rest := marksOnLine row (column + 1) cs
    if c = '.' then rest else ⟨row, column, String.singleton c⟩ :: rest

/-- The symbols on lines of text, of which the first has the given number; dots are empty squares.
-/
def marksFrom (row : Int) : List String → List Mark
  | [] => []
  | line :: lines => marksOnLine row 0 line.toList ++ marksFrom (row + 1) lines

/-- The symbols on a board. -/
def marks (lines : List String) : List Mark := marksFrom 0 lines

end DancingLinks.Viewer
