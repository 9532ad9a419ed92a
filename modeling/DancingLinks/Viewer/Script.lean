import DancingLinks.Viewer.Session

/-!
# Scripts

A session can be played without a window: its frames are read from lines of text, and what it draws
is written as lines of text. A line holds the inputs of one frame, with semicolons between them; an
input is a word for what the user does, followed by its numbers or its key.
-/

namespace DancingLinks.Viewer

/-- The parts of a text between the semicolons. -/
def inputTexts : List Char → List (List Char)
  | [] => [[]]
  | c :: cs =>
    match inputTexts cs with
    | part :: parts => if c = ';' then [] :: part :: parts else (c :: part) :: parts
    | [] => [[c]]

/-- A key by its name. -/
def Key.ofName? : String → Option Key
  | "left" => some .left
  | "right" => some .right
  | "escape" => some .escape
  | "space" => some .space
  | _ => none

/-- An input by its words. -/
def Input.ofWords? : List String → Option Input
  | ["quit"] => some .quit
  | ["keyup"] => some .keyUp
  | ["key", name] => (Key.ofName? name).map .keyDown
  | ["resize", width, height] =>
    match Text.Integer.read width, Text.Integer.read height with
    | .ok width, .ok height => some (.resize ⟨width, height⟩)
    | _, _ => none
  | ["click", x, y] =>
    match Text.Integer.read x, Text.Integer.read y with
    | .ok x, .ok y => some (.click ⟨x, y⟩)
    | _, _ => none
  | _ => none

/-- The inputs of a frame, those that make no sense left out. -/
def frameOfLine (line : String) : List Input :=
  (inputTexts line.toList).filterMap fun text => Input.ofWords? (Text.words (String.ofList text))

/-- A call as a line of text. -/
def Call.line : Call → String
  | start => "start"
  | setMode size resizable =>
    s!"mode {size.width} {size.height}" ++ if resizable then " resizable" else ""
  | caption title => s!"caption {title}"
  | fill c => s!"fill {c.red} {c.green} {c.blue}"
  | rect c r lineWidth radius =>
    s!"rect {c.red} {c.green} {c.blue} at {r.x} {r.y} {r.width} {r.height} line {lineWidth} "
      ++ s!"radius {radius}"
  | circle c center radius =>
    s!"circle {c.red} {c.green} {c.blue} at {center.x} {center.y} radius {radius}"
  | text content c font =>
    s!"text {c.red} {c.green} {c.blue} height {font.height} {Text.quoted content}"
  | blit content corner => s!"blit {corner.x} {corner.y} {Text.quoted content}"
  | flip => "flip"
  | stop => "stop"

end DancingLinks.Viewer
