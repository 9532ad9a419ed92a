import DancingLinks.Viewer.Gallery
import DancingLinks.Viewer.Layout
import DancingLinks.Viewer.Paint

/-!
# Drawing

The calls that draw the title bar, a board, and the menu. The squares that a puzzle fixed have a
colour of their own; a board of queens is chequered, and other boards have their boxes framed.
-/

namespace DancingLinks.Viewer

/-! ## Colours and fonts -/

def background : Color := ⟨15, 15, 17⟩
def cardColor : Color := ⟨30, 30, 34⟩
def gridColor : Color := ⟨90, 90, 95⟩
def mainTextColor : Color := ⟨245, 245, 250⟩
def secondaryTextColor : Color := ⟨230, 230, 235⟩
def lightSquareColor : Color := ⟨45, 45, 49⟩
def queenColor : Color := ⟨255, 190, 60⟩
def givenColor : Color := ⟨45, 140, 255⟩
def filledColor : Color := ⟨60, 200, 80⟩
def boxColor : Color := ⟨220, 90, 90⟩
def hoverColor : Color := ⟨50, 50, 55⟩

def titleFont : Font := ⟨32, true⟩
def labelFont : Font := ⟨24, false⟩
def cellFont : Font := ⟨24, true⟩
def buttonFont : Font := ⟨20, false⟩

/-- Renders a text and puts it on the screen. -/
def drawText (content : String) (color : Color) (font : Font) (corner : Point) : Paint Unit :=
  .make [.text content color font, .blit content corner]

/-- Renders a text and puts it on the screen around a point. -/
def drawTextAround (content : String) (color : Color) (font : Font) (middle : Point) :
    Paint Unit := do
  .make [.text content color font]
  let corner ← .need ((font.sizeOf content).around middle)
  .make [.blit content corner]

/-! ## The title bar -/

/-- What the title bar says of the board that is shown. The number of a board that is none of the
`total` may be too long to be written. -/
def countText (index total : Int) : Except Fault String := do
  if total = 0 then return "No solution"
  unless 0 ≤ index ∧ index < total do
    (Text.Integer.checkWritable (index + 1)).mapError .integer
  return s!"Solution {index + 1} of {total}"

theorem countText_zero (index : Int) : countText index 0 = .ok "No solution" := rfl

/-- The boards that there are can be counted. -/
theorem countText_of_lt {index total : Int} (low : 0 ≤ index) (high : index < total) :
    countText index total = .ok s!"Solution {index + 1} of {total}" := by
  have boards : total ≠ 0 := by omega
  simp [countText, boards, low, high, pure, Except.pure]

/-- The title bar. Its ground is as wide as the screen is, however wide that may be; the card on it
is a rectangle. -/
def drawTopBar (screenWidth : Int) (title : String) (index total : Int) : Paint Unit := do
  .make [.fillRect background ⟨0, 0, screenWidth, topBarHeight⟩]
  let card ← .need (Rect.of 16 16 (screenWidth - 32) (topBarHeight - 32))
  .make [.rect cardColor card 0 16]
  drawText title mainTextColor titleFont ⟨card.x + 20, card.y + 12⟩
  let count ← .need (countText index total)
  drawText count secondaryTextColor labelFont ⟨card.x + 20, card.y + 48⟩

/-! ## Boards -/

/-- The rows and columns of a grid, row by row, counted from zero. -/
def places (size : Nat) : List (Nat × Nat) :=
  (List.range size).flatMap fun row => (List.range size).map fun column => (row, column)

theorem mem_places {size row column : Nat} :
    (row, column) ∈ places size ↔ row < size ∧ column < size := by
  simp [places]

/-- The ground of a square. -/
def drawGround (area : Rect) (light : Bool) : Paint Unit :=
  if light then .make [.rect lightSquareColor area 0 12]
  else .make [.rect background area 0 12, .rect gridColor area 1 12]

/-- The symbol of a square, in the middle of it. -/
def drawSymbol (s : Settings) (corner : Point) (symbol : String) (given : Bool) : Paint Unit :=
  let size := cellFont.sizeOf symbol
  drawText symbol (if given then givenColor else filledColor) cellFont
    ⟨corner.x + (s.cellSize - size.width) / 2, corner.y + (s.cellSize - size.height) / 2⟩

/-- A square with what stands on it. -/
def drawSquare (s : Settings) (left : Int) (onBoard givens : List Mark) (queens : Bool)
    (row column : Nat) : Paint Unit := do
  let corner := squareCorner s left row column
  let area ← .need (Rect.of (corner.x + 2) (corner.y + 2) (s.cellSize - 4) (s.cellSize - 4))
  let here (mark : Mark) : Bool := mark.row == row && mark.column == column
  drawGround area (queens && (row + column) % 2 == 0)
  match onBoard.find? here with
  | none => pure ()
  | some mark =>
    if queens then .make [.circle queenColor area.center (s.cellSize / 3)]
    else drawSymbol s corner mark.symbol (givens.any here)

/-- The frames of the boxes with `side` squares on a side. -/
def drawBoxes (s : Settings) (left : Int) (side : Nat) : Paint Unit :=
  (places side).forM fun (row, column) => do
    let area ← .need (boxRect s left side row column)
    .make [.rect boxColor area 2 (-1)]

/-- A board of as many rows and columns as it has lines. Boards of queens have no boxes, nor have
boards whose boxes would be single squares. -/
def drawBoard (s : Settings) (screenWidth : Int) (lines : List String) (givens : List Mark)
    (queens : Bool) : Paint Unit := do
  let size := lines.length
  let left := boardLeft s screenWidth size
  let onBoard := marks lines
  (places size).forM fun (row, column) => drawSquare s left onBoard givens queens row column
  let side ← .need (boxSize size)
  if !queens && 1 < side then drawBoxes s left side

/-! ## The menu -/

/-- A button, lighter when the mouse is over it. -/
def drawButton (mouse : Point) (area : Rect) (action : Action) : Paint Unit := do
  let mouse ← .need mouse.onScreen
  let color := if area.Holds mouse then hoverColor else cardColor
  .make [.rect color area 0 12, .rect gridColor area 1 12]
  drawTextAround action.caption mainTextColor buttonFont area.center

/-- The menu. -/
def drawMenu (screen : Size) (mouse : Point) : Paint Unit := do
  .make [.fill background]
  drawTextAround "Dancing Links" mainTextColor titleFont ⟨screen.width / 2, screen.height / 4⟩
  let areas ← .need (buttons screen)
  areas.forM fun (area, action) => drawButton mouse area action

end DancingLinks.Viewer
