import DancingLinks.Fault
import DancingLinks.Viewer.Coordinate

/-!
# The canvas

Drawing is described by the calls it makes, in order. Positions are in pixels from the top left
corner; a rectangle of negative width or height is drawn as it is given and holds no point.

Numbers become coordinates when they make a rectangle, when a rectangle is asked for a point, and
when it is moved. What a rectangle computes stays in the range of coordinates by losing upper bits.
-/

namespace DancingLinks.Viewer

/-- A position on the screen. -/
structure Point where
  x : Int
  y : Int
  deriving DecidableEq, Repr, Inhabited

/-- The width and the height of something. -/
structure Size where
  width : Int
  height : Int
  deriving DecidableEq, Repr, Inhabited

/-- A rectangle, given by its top left corner and its size. -/
structure Rect where
  x : Int
  y : Int
  width : Int
  height : Int
  deriving DecidableEq, Repr, Inhabited

/-- The rectangle that four numbers make. -/
def Rect.of (x y width height : Int) : Except Fault Rect :=
  match coordinate? x, coordinate? y, coordinate? width, coordinate? height with
  | some x, some y, some width, some height => .ok ⟨x, y, width, height⟩
  | _, _, _, _ => .error .badRectangle

/-- The centre of a rectangle, rounded down. -/
def Rect.center (r : Rect) : Point := ⟨word (r.x + r.width / 2), word (r.y + r.height / 2)⟩

/-- The point whose coordinates are those that the numbers become. -/
def Point.onScreen? (p : Point) : Option Point :=
  match coordinate? p.x, coordinate? p.y with
  | some x, some y => some ⟨x, y⟩
  | _, _ => none

/-- The point that a rectangle is asked for. -/
def Point.onScreen (p : Point) : Except Fault Point :=
  match p.onScreen? with
  | some p => .ok p
  | none => .error .badPoint

/-- The point lies in the rectangle; the right and the lower edge do not belong to it. -/
def Rect.Holds (r : Rect) (p : Point) : Prop :=
  r.x ≤ p.x ∧ p.x < word (r.x + r.width) ∧ r.y ≤ p.y ∧ p.y < word (r.y + r.height)

instance (r : Rect) (p : Point) : Decidable (r.Holds p) := inferInstanceAs (Decidable (_ ∧ _))

/-- The corner at which something of the given size stands around a point. -/
def Size.around (s : Size) (p : Point) : Except Fault Point :=
  match p.onScreen? with
  | some p => .ok ⟨word (p.x - s.width / 2), word (p.y - s.height / 2)⟩
  | none => .error .badPlace

/-- Numbers in the range of coordinates make the rectangle that they say. -/
theorem Rect.of_inRange {x y width height : Int}
    (inRange : ∀ n ∈ [x, y, width, height], -0x80000000 ≤ n ∧ n < 0x80000000) :
    Rect.of x y width height = .ok ⟨x, y, width, height⟩ := by
  have same (n : Int) (mem : n ∈ [x, y, width, height]) : coordinate? n = some n :=
    coordinate?_of_inRange (inRange n mem).1 (inRange n mem).2
  rw [Rect.of, same x (by simp), same y (by simp), same width (by simp), same height (by simp)]

/-- A colour by its red, green and blue parts. -/
structure Color where
  red : Nat
  green : Nat
  blue : Nat
  deriving DecidableEq, Repr, Inhabited

/-- A font by its height and weight. -/
structure Font where
  height : Nat
  bold : Bool := false
  deriving DecidableEq, Repr, Inhabited

/-- The size of a text in a font: every character is half as wide as the font is high. -/
def Font.sizeOf (f : Font) (text : String) : Size := ⟨text.length * (f.height / 2 : Nat), f.height⟩

/-- One thing done on the screen. -/
inductive Call
  /-- The graphics are set up. -/
  | start
  /-- The window gets a size. -/
  | setMode (size : Size) (resizable : Bool)
  /-- The window gets a caption. -/
  | caption (text : String)
  /-- The screen is filled with a colour. -/
  | fill (color : Color)
  /-- A rectangle is drawn, filled if the line width is zero; a negative radius means sharp corners.
  -/
  | rect (color : Color) (area : Rect) (lineWidth radius : Int)
  /-- A disc is drawn. -/
  | circle (color : Color) (center : Point) (radius : Int)
  /-- A text is rendered. -/
  | text (content : String) (color : Color) (font : Font)
  /-- A rendered text is put on the screen. -/
  | blit (content : String) (corner : Point)
  /-- The finished frame is shown. -/
  | flip
  /-- The graphics are shut down. -/
  | stop
  deriving DecidableEq, Repr

/-- A filled rectangle with sharp corners. -/
def Call.fillRect (color : Color) (area : Rect) : Call := .rect color area 0 (-1)

end DancingLinks.Viewer
