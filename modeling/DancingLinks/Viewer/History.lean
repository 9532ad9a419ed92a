import DancingLinks.Viewer.Session

/-!
# What a session showed

The inputs that a session has handled tell which puzzles it has shown (`Session.after`): a puzzle is
shown when its button is clicked in the menu (`Session.shown?`), and what is shown of it depends on
the settings and the lines of the sudoku alone (`Session.exhibitFor`). The calls of a frame tell
which texts were put where on the screen (`written`).
-/

namespace DancingLinks.Viewer

namespace Session

/-- What is shown for an action, and the size of its boards. -/
def exhibitFor (s : Session) : Action → Except Fault (Exhibit × Int)
  | .queens => do
    let size := s.settings.queensSize
    let boards ← solveQueens s.settings size
    return ({ title := s!"{size}-Queens", boards, queens := true }, size)
  | .sudoku => do
    let solved ← solveSudoku s.settings s.sudoku
    return ({ title := "Sudoku", boards := solved.boards, givens := solved.givens }, solved.size)

/-- What was chosen in the menu is shown. -/
theorem choose_eq (s : Session) (action : Action) :
    s.choose action = (.need (s.exhibitFor action) >>= fun shown => s.present shown.1 shown.2) := by
  cases action with
  | queens =>
    simp only [choose, exhibitFor]
    cases solveQueens s.settings s.settings.queensSize <;> rfl
  | sudoku =>
    simp only [choose, exhibitFor]
    cases solveSudoku s.settings s.sudoku <;> rfl

/-- What an input makes the session show: a click on a button of the menu shows the boards of the
puzzle. -/
def shown? (s : Session) (input : Input) : Option Exhibit :=
  match s.gallery.mode, input with
  | .menu, .click p =>
    match actionAt s.screen p with
    | .ok (some action) => (s.exhibitFor action).toOption.map Prod.fst
    | _ => none
  | _, _ => none

/-- What was shown while inputs were handled, the latest first, and the state after them. -/
def after (s : Session) : List Input → Except Fault (List Exhibit × Session)
  | [] => .ok ([], s)
  | input :: inputs => do
    let next ← (s.handle input).result
    let (shows, last) ← next.after inputs
    return (shows ++ (s.shown? input).toList, last)

end Session

/-- A text on the screen. -/
structure Writing where
  content : String
  color : Color
  font : Font
  corner : Point
  deriving DecidableEq, Repr

/-- The texts that calls put on the screen, each right after it was rendered. -/
def written : List Call → List Writing
  | .text content color font :: .blit content' corner :: calls =>
    if content' = content then ⟨content, color, font, corner⟩ :: written calls else written calls
  | _ :: calls => written calls
  | [] => []

/-- The texts of a title bar: the title, and what is said of the board below it. -/
def barWritings (title count : String) : List Writing :=
  [⟨title, mainTextColor, titleFont, ⟨36, 28⟩⟩, ⟨count, secondaryTextColor, labelFont, ⟨36, 64⟩⟩]

/-- The symbol of a square that a puzzle fixed, in the middle of its square on a board with the
given left edge. -/
def givenWriting (s : Settings) (left : Int) (c : Sudoku.Cell) : Writing :=
  let corner := squareCorner s left (c.square.row - 1).toNat (c.square.column - 1).toNat
  let size := cellFont.sizeOf c.value
  ⟨c.value, givenColor, cellFont,
    ⟨corner.x + (s.cellSize - size.width) / 2, corner.y + (s.cellSize - size.height) / 2⟩⟩

/-- The calls of a finished frame: the window changes its size perhaps, a picture is drawn and
shown, and the session may end. -/
def Framed (picture calls : List Call) : Prop :=
  ∃ modes closing, calls = modes ++ picture ++ .flip :: closing ∧
    (∀ call ∈ modes, ∃ size, call = .setMode size true) ∧ (closing = [] ∨ closing = [.stop])

end DancingLinks.Viewer
