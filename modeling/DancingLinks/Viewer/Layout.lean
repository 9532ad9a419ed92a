import DancingLinks.Settings
import DancingLinks.SquareRoot
import DancingLinks.Viewer.Canvas

/-!
# Layout

Where things stand on the screen: the window around a board below its title bar, the squares of a
board, its boxes, and the buttons of the menu.
-/

namespace DancingLinks.Viewer

/-- The height of the title bar. -/
def topBarHeight : Int := 120

/-- The least width of a window around a board. -/
def minWindowWidth : Int := 480

/-- The size of the window that the viewer opens. -/
def openingSize (s : Settings) : Size := ⟨9 * s.cellSize, 9 * s.cellSize + topBarHeight⟩

/-- The size of a window around a board. -/
def windowSize (s : Settings) (boardSize : Int) : Size :=
  ⟨max minWindowWidth (boardSize * s.cellSize), boardSize * s.cellSize + topBarHeight⟩

/-- The number of squares on a side of a box, or zero when a board of this size has no boxes. -/
def boxSize (boardSize : Int) : Except Fault Nat := do
  return (← realRoot? boardSize).getD 0

/-- The left edge of a board with `size` squares in a row, centred on the screen. -/
def boardLeft (s : Settings) (screenWidth : Int) (size : Nat) : Int :=
  (screenWidth - size * s.cellSize) / 2

/-- The top left corner of the square in some row and column of a board with the given left edge. -/
def squareCorner (s : Settings) (left : Int) (row column : Nat) : Point :=
  ⟨left + column * s.cellSize, topBarHeight + row * s.cellSize⟩

/-- The frame of the box in some row and column of boxes, each with `side` squares on a side. -/
def boxRect (s : Settings) (left : Int) (side row column : Nat) : Except Fault Rect :=
  let span : Int := side * s.cellSize
  Rect.of (left + column * span) (topBarHeight + row * span) span span

/-! ## The menu -/

/-- What can be chosen in the menu. -/
inductive Action
  | queens
  | sudoku
  deriving DecidableEq, Repr

/-- The name of an action. -/
def Action.name : Action → String
  | queens => "nqueens"
  | sudoku => "sudoku"

/-- The caption of the button of an action. -/
def Action.caption : Action → String
  | queens => "N-Queens"
  | sudoku => "Sudoku"

/-- The actions in the order of their buttons. -/
def actions : List Action := [.queens, .sudoku]

/-- The area of the button with some number: a column of buttons in the middle of the screen,
starting at half its height. -/
def buttonRect (screen : Size) (number : Nat) : Except Fault Rect :=
  let width := min 400 (screen.width - 80)
  Rect.of ((screen.width - width) / 2) (screen.height / 2 + number * (60 + 20)) width 60

/-- The buttons of the menu. -/
def buttons (screen : Size) : Except Fault (List (Rect × Action)) :=
  actions.zipIdx.mapM fun (action, number) => do
    return (← buttonRect screen number, action)

/-- The action whose button holds the point. -/
def actionAt (screen : Size) (p : Point) : Except Fault (Option Action) := do
  let areas ← buttons screen
  let p ← p.onScreen
  return (areas.find? fun button => button.1.Holds p).map Prod.snd

end DancingLinks.Viewer
