import DancingLinks.Viewer.Drawing
import DancingLinks.Viewer.Puzzles

/-!
# Sessions

A session of the viewer goes frame by frame: it handles the inputs of a frame, and then draws. A
request to quit ends the session after the frame in which it came. A puzzle is solved when its
button is clicked, and a fault in it ends the session at once; what was drawn before is kept.
-/

namespace DancingLinks.Viewer

/-- The keys that the viewer tells apart. -/
inductive Key
  | left
  | right
  | escape
  | space
  deriving DecidableEq, Repr

/-- Something the user does. -/
inductive Input
  | quit
  | resize (size : Size)
  | click (p : Point)
  | keyDown (key : Key)
  | keyUp
  deriving DecidableEq, Repr

/-- The state of the viewer. -/
structure Session where
  settings : Settings
  /-- The lines of the sudoku that the menu offers. -/
  sudoku : List String
  mouse : Point
  screen : Size
  gallery : Gallery := {}
  running : Bool := true
  deriving DecidableEq, Repr

namespace Session

/-- Shows the boards of a puzzle in a window that fits them. -/
def present (s : Session) (exhibit : Exhibit) (boardSize : Int) : Paint Session := do
  let screen := windowSize s.settings boardSize
  .make [.setMode screen true]
  return { s with gallery := .display exhibit, screen }

/-- Does what was chosen in the menu. -/
def choose (s : Session) : Action → Paint Session
  | .queens => do
    let size := s.settings.queensSize
    let boards ← .need (solveQueens s.settings size)
    s.present { title := s!"{size}-Queens", boards, queens := true } size
  | .sudoku => do
    let solved ← .need (solveSudoku s.settings s.sudoku)
    s.present { title := "Sudoku", boards := solved.boards, givens := solved.givens } solved.size

/-- Handles a click on the menu. -/
def click (s : Session) (p : Point) : Paint Session := do
  match ← .need (actionAt s.screen p) with
  | some action => s.choose action
  | none => return s

/-- Handles an input. The menu takes clicks, a board takes keys. -/
def handle (s : Session) (input : Input) : Paint Session :=
  match input, s.gallery.mode with
  | .quit, _ => pure { s with running := false }
  | .resize size, _ => do
    .make [.setMode size true]
    return { s with screen := size }
  | .click p, .menu => s.click p
  | .keyDown .escape, .board => pure { s with gallery := s.gallery.openMenu }
  | .keyDown .right, .board => pure { s with gallery := s.gallery.next }
  | .keyDown .left, .board => pure { s with gallery := s.gallery.previous }
  | _, _ => pure s

/-- Handles inputs in order. -/
def handleAll (s : Session) : List Input → Paint Session
  | [] => pure s
  | input :: inputs => do
    let s ← s.handle input
    s.handleAll inputs

/-- Draws the board that the session shows, under the title bar. -/
def drawExhibit (s : Session) : Paint Unit := do
  let exhibit := s.gallery.exhibit
  .make [.fill background]
  drawTopBar s.screen.width exhibit.title s.gallery.index exhibit.boards.length
  match s.gallery.current? with
  | some lines => drawBoard s.settings s.screen.width lines exhibit.givens exhibit.queens
  | none => pure ()

/-- Draws what the session shows. -/
def draw (s : Session) : Paint Unit := do
  match s.gallery.mode with
  | .menu => drawMenu s.screen s.mouse
  | .board => s.drawExhibit
  .make [.flip]

/-- One frame: handles its inputs and draws. -/
def frame (s : Session) (inputs : List Input) : Paint Session := do
  let s ← s.handleAll inputs
  s.draw
  return s

end Session

/-- How a session ends. -/
inductive Ending
  /-- The user quit. -/
  | quit
  /-- There are no more frames. -/
  | outOfFrames
  /-- Something went wrong. -/
  | fault (f : Fault)
  deriving Repr

/-- What a session leaves: the calls made before the first frame and in every frame, and its end. -/
structure Recording where
  calls : List (List Call)
  ending : Ending
  deriving Repr

/-- Plays frames until the session ends. When it ends for want of a frame, that frame has no calls.
-/
def Session.play (s : Session) : List (List Input) → Recording
  | [] => ⟨[[]], .outOfFrames⟩
  | inputs :: frames =>
    match s.frame inputs with
    | ⟨calls, .error fault⟩ => ⟨[calls], .fault fault⟩
    | ⟨calls, .ok s⟩ =>
      if s.running then
        let rest := s.play frames
        ⟨calls :: rest.calls, rest.ending⟩
      else ⟨[calls ++ [.stop]], .quit⟩

/-- The state in which a session opens. -/
def Session.opening (settings : Settings) (mouse : Point) (file : Option (List UInt8)) :
    Except Fault Session := do
  settings.checkLogLevel
  let sudoku ← loadSudoku file
  return { settings, sudoku, mouse, screen := openingSize settings }

/-- The calls that open the window. -/
def Session.openingCalls (s : Session) : List Call :=
  [.start, .setMode s.screen true, .caption "Dancing Links"]

/-- Opens a session and plays frames in it. -/
def run (settings : Settings) (mouse : Point) (file : Option (List UInt8))
    (frames : List (List Input)) : Recording :=
  match Session.opening settings mouse file with
  | .error fault => ⟨[[]], .fault fault⟩
  | .ok s =>
    let recording := s.play frames
    ⟨s.openingCalls :: recording.calls, recording.ending⟩

end DancingLinks.Viewer
