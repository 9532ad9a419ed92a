import DancingLinks.Proofs.Sudoku.Boxes
import DancingLinks.Proofs.Viewer.Drawing

/-!
# Frames and boxes

The viewer frames the boxes of a board, in pixels and counted from zero; a sudoku numbers them, by the
squares that it counts from one. Both cut the board in the same way: a frame goes around those squares
that demand their symbols in one box (`boxFrame_covers_iff`, `sectorName_eq_iff`).

What is drawn are rectangles, whose coordinates are words; longer numbers lose their upper bits. So the
frames that are drawn are the boxes of the board exactly when they fit (`frames_are_boxes`): a rectangle
that goes around the first and the last square of a box is the frame of that box, and has not lost
anything (`fits_of_covers`).
-/

namespace DancingLinks.Viewer

open Sudoku (Demand boxDemand boxDemand_of_onBoard boxNumber box boxNumber_eq_boxNumber_iff)

variable {s : Settings} {left width : Int} {lines : List String} {givens : List Mark}
  {side size row column row' column' : Nat}

/-! ## Rectangles -/

namespace Rect

variable {r area : Rect}

/-- The rectangle goes around an area. -/
def Covers (r area : Rect) : Prop :=
  r.x ≤ area.x ∧ area.x + area.width ≤ r.x + r.width ∧
    r.y ≤ area.y ∧ area.y + area.height ≤ r.y + r.height

instance (r area : Rect) : Decidable (r.Covers area) := inferInstanceAs (Decidable (_ ∧ _))

/-- The numbers of the rectangle are in the range of coordinates. -/
def Fits (r : Rect) : Prop :=
  ∀ n ∈ [r.x, r.y, r.width, r.height], -0x80000000 ≤ n ∧ n < 0x80000000

instance (r : Rect) : Decidable r.Fits := inferInstanceAs (Decidable (∀ n ∈ _, _))

/-- The rectangle whose coordinates are words. -/
def onScreen (r : Rect) : Rect := ⟨word r.x, word r.y, word r.width, word r.height⟩

/-- Four numbers that make a rectangle become words. -/
theorem eq_onScreen {x y width height : Int} (made : Rect.of x y width height = .ok r) :
    r = (⟨x, y, width, height⟩ : Rect).onScreen := by
  unfold Rect.of at made
  split at made
  · next hx hy hw hh =>
    cases made
    rw [eq_word_of_coordinate? hx, eq_word_of_coordinate? hy, eq_word_of_coordinate? hw,
      eq_word_of_coordinate? hh, onScreen]
  · cases made

/-- Numbers of up to 64 bits make some rectangle. -/
theorem exists_of {x y width height : Int} (short : ∀ n ∈ [x, y, width, height],
    -0x8000000000000000 ≤ n ∧ n < 0x8000000000000000) : ∃ r, Rect.of x y width height = .ok r := by
  have becomes (n : Int) (mem : n ∈ [x, y, width, height]) : coordinate? n = some (word n) :=
    if_pos (short n mem)
  rw [Rect.of, becomes x (by simp), becomes y (by simp), becomes width (by simp),
    becomes height (by simp)]
  exact ⟨_, rfl⟩

theorem Fits.onScreen_eq (fits : r.Fits) : r.onScreen = r := by
  have same : ∀ n ∈ [r.x, r.y, r.width, r.height], word n = n := fun n mem =>
    word_of_inRange (fits n mem).1 (fits n mem).2
  rw [onScreen, same r.x (by simp), same r.y (by simp), same r.width (by simp), same r.height (by simp)]

end Rect

/-- A positive number is no smaller than its word, unless it is its word. -/
theorem word_eq_of_le {n : Int} (positive : 0 < n) (below : n ≤ word n) : word n = n :=
  word_of_inRange (by omega) (by have := word_inRange n; omega)

/-! ## Frames as they are meant -/

/-- The frame of the box in some row and column of boxes, with numbers of any length. -/
def boxFrame (s : Settings) (left : Int) (side row column : Nat) : Rect :=
  let span : Int := side * s.cellSize
  ⟨left + column * span, topBarHeight + row * span, span, span⟩

/-- The frames of all boxes. -/
def boxFrames (s : Settings) (left : Int) (side : Nat) : List Rect :=
  (places side).map fun p => boxFrame s left side p.1 p.2

/-- The area of the square in some row and column. -/
def squareArea (s : Settings) (left : Int) (row column : Nat) : Rect :=
  let corner := squareCorner s left row column
  ⟨corner.x, corner.y, s.cellSize, s.cellSize⟩

/-- A box begins with its first square, -/
theorem mul_span (cell : Int) (side i : Nat) : (i : Int) * (side * cell) = (i * side : Nat) * cell := by
  rw [Int.natCast_mul, Int.mul_assoc]

/-- a square ends where the next one begins, -/
theorem mul_add_cell (cell : Int) (c : Nat) : (c : Int) * cell + cell = (c + 1 : Nat) * cell := by
  rw [Int.natCast_add, Int.natCast_one, Int.add_mul, Int.one_mul]

/-- and a box ends with its last square. -/
theorem mul_add_span (cell : Int) (side i : Nat) :
    (i : Int) * (side * cell) + side * cell = (i * side + side : Nat) * cell := by
  rw [mul_span, Int.natCast_add, Int.add_mul]

/-- Along a line, the squares between the ends of a box are those whose number, divided by its side, is
that of the box. -/
theorem span_covers_iff {cell : Int} (positive : 0 < cell) (any : 0 < side) (start : Int) (i c : Nat) :
    (start + i * (side * cell) ≤ start + c * cell ∧
      start + c * cell + cell ≤ start + i * (side * cell) + side * cell) ↔ c / side = i := by
  rw [Int.add_assoc, mul_add_cell, Int.add_assoc, mul_add_span, mul_span, Int.add_le_add_iff_left,
    Int.add_le_add_iff_left, Int.mul_le_mul_right positive, Int.mul_le_mul_right positive,
    Nat.div_eq_iff any]
  omega

/-- The frame of a box goes around the squares in its rows and columns. -/
theorem boxFrame_covers_iff (positive : 0 < s.cellSize) (any : 0 < side) (i j : Nat) :
    (boxFrame s left side i j).Covers (squareArea s left row column) ↔
      row / side = i ∧ column / side = j := by
  have down := span_covers_iff positive any topBarHeight i row
  have across := span_covers_iff positive any left j column
  rw [and_comm, ← down, ← across]
  exact and_assoc.symm

theorem nodup_places (size : Nat) : (places size).Nodup := by
  have squares := nodup_allSquares size
  rw [allSquares_eq] at squares
  exact squares.of_map _

theorem length_boxFrames (s : Settings) (left : Int) (side : Nat) :
    (boxFrames s left side).length = side * side := by
  simp [boxFrames, places, List.length_flatMap]

theorem side_pos (hr : row < side * side) : 0 < side :=
  Nat.pos_of_ne_zero fun zero => by simp [zero] at hr

/-- The box of a square. -/
theorem div_mem_places (hr : row < side * side) (hc : column < side * side) :
    (row / side, column / side) ∈ places side :=
  mem_places.2 ⟨Nat.div_lt_of_lt_mul hr, Nat.div_lt_of_lt_mul hc⟩

/-- Exactly one of the frames goes around a square. -/
theorem countP_boxFrames (positive : 0 < s.cellSize) (hr : row < side * side)
    (hc : column < side * side) :
    (boxFrames s left side).countP (·.Covers (squareArea s left row column)) = 1 := by
  have here := div_mem_places hr hc
  rw [boxFrames, List.countP_map, ← List.count_eq_one_of_mem (nodup_places side) here, List.count]
  refine List.countP_congr fun p _ => ?_
  obtain ⟨i, j⟩ := p
  rw [Function.comp_apply, decide_eq_true_iff, beq_iff_eq, boxFrame_covers_iff positive (side_pos hr),
    Prod.mk.injEq, eq_comm, @eq_comm _ j]

/-- Two squares have a frame around both when they are in the same rows and columns of boxes. -/
theorem exists_boxFrame_iff (positive : 0 < s.cellSize) (hr : row < side * side)
    (hc : column < side * side) :
    (∃ f ∈ boxFrames s left side, f.Covers (squareArea s left row column) ∧
      f.Covers (squareArea s left row' column')) ↔
      row / side = row' / side ∧ column / side = column' / side := by
  have any := side_pos hr
  constructor
  · rintro ⟨f, mem, covers, covers'⟩
    obtain ⟨⟨i, j⟩, -, rfl⟩ := List.mem_map.1 mem
    obtain ⟨rfl, rfl⟩ := (boxFrame_covers_iff positive any i j).1 covers
    obtain ⟨down, across⟩ := (boxFrame_covers_iff positive any _ _).1 covers'
    exact ⟨down.symm, across.symm⟩
  · rintro ⟨down, across⟩
    refine ⟨_, List.mem_map_of_mem (div_mem_places hr hc), ?_, ?_⟩
    · exact (boxFrame_covers_iff positive any _ _).2 ⟨rfl, rfl⟩
    · exact (boxFrame_covers_iff positive any _ _).2 ⟨down.symm, across.symm⟩

/-! ## Sectors -/

/-- The name of the demand to have a symbol in the box of the square in some row and column, counted from
zero. -/
def sectorName (size : Nat) (row column : Nat) (v : String) : Except Fault String :=
  (boxDemand size ⟨⟨row + 1, column + 1⟩, v⟩).map Demand.name

/-- The square in some row and column, counted from zero, is on the board. -/
theorem onBoard_of_lt (hr : row < size) (hc : column < size) :
    (Square.mk (row + 1) (column + 1)).OnBoard size :=
  ⟨by dsimp only; omega, by dsimp only; omega, by dsimp only; omega, by dsimp only; omega⟩

/-- On a board with boxes it tells the number of the box. -/
theorem sectorName_eq (hr : row < side * side) (hc : column < side * side) (v : String) :
    sectorName (side * side) row column v
      = .ok (Demand.inBox (boxNumber side ⟨row + 1, column + 1⟩) v).name := by
  have any : side ≠ 0 := Nat.ne_of_gt (side_pos hr)
  have root : isqrt ((side * side : Nat) : Int).toNat = side := isqrt_of_mul_self rfl
  rw [sectorName, boxDemand_of_onBoard (onBoard_of_lt hr hc), box, root, if_neg any]
  rfl

/-- Squares have one sector when they are in the same rows and columns of boxes. -/
theorem sectorName_eq_iff (hr : row < side * side) (hc : column < side * side)
    (hr' : row' < side * side) (hc' : column' < side * side) (v : String) :
    sectorName (side * side) row column v = sectorName (side * side) row' column' v ↔
      row / side = row' / side ∧ column / side = column' / side := by
  have any : (1 : Int) ≤ side := Int.ofNat_le.2 (side_pos hr)
  have here := onBoard_of_lt hr hc
  have there := onBoard_of_lt hr' hc'
  rw [Int.natCast_mul] at here there
  have numbers := boxNumber_eq_boxNumber_iff any here there
  rw [Int.add_sub_cancel, Int.add_sub_cancel, Int.add_sub_cancel, Int.add_sub_cancel] at numbers
  rw [sectorName_eq hr hc, sectorName_eq hr' hc', Except.ok.injEq]
  constructor
  · intro same
    have number := (Demand.inBox.inj (Demand.name_inj same)).1
    exact_mod_cast numbers.1 number
  · intro same
    rw [numbers.2 (by exact_mod_cast same)]

/-! ## Frames that are drawn -/

/-- The frame of a box that a call draws, which has a colour of its own. -/
def Call.frame? : Call → Option Rect
  | .rect color area _ _ => if color = boxColor then some area else none
  | _ => none

/-- The frames that are drawn. -/
def frames (calls : List Call) : List Rect := calls.filterMap Call.frame?

/-- A square has no frame. -/
theorem frames_drawSquare {onBoard givens : List Mark} {queens : Bool} :
    (drawSquare s left onBoard givens queens row column).Makes (Call.frame? · = none) := by
  refine .bind (.need _) fun area => .bind ?_ fun _ => ?_
  · cases queens && (row + column) % 2 == 0 with
    | true => exact .make (by simp [Call.frame?, lightSquareColor, boxColor])
    | false => exact .make (by simp [Call.frame?, background, gridColor, boxColor])
  · split
    · exact .pure ()
    · split
      · exact .make (by simp [Call.frame?])
      · exact .make (by simp [Call.frame?])

/-- When the frames of boxes are drawn, their numbers become words. -/
theorem frames_drawBoxes (done : (drawBoxes s left side).result = .ok ()) :
    frames (drawBoxes s left side).calls = (boxFrames s left side).map Rect.onScreen := by
  obtain ⟨each, calls⟩ := Paint.of_forM done
  rw [drawBoxes, calls, frames, List.filterMap_flatMap, boxFrames, List.map_map, List.map_eq_flatMap]
  refine List.flatMap_congr fun p mem => ?_
  obtain ⟨area, made, -, calls⟩ := Paint.of_bind (each p mem)
  have framed : (Call.rect boxColor area 2 (-1)).frame? = some area := by simp [Call.frame?]
  have cut : area = (boxFrame s left side p.1 p.2).onScreen := Rect.eq_onScreen made
  rw [calls, Function.comp_apply, ← cut]
  exact List.filterMap_cons_some framed

/-- The sizes of boards that have boxes. -/
theorem of_boxSize (boxed : boxSize size = .ok side) (any : 0 < side) : side * side = size := by
  obtain ⟨root, found, boxed⟩ := ok_of_bind boxed
  cases boxed
  unfold realRoot? at found
  split at found
  · cases found
  · split at found
    · cases found
    · dsimp only at found
      split at found
      · next square =>
        cases found
        exact square.1
      · cases found
        cases any

/-- On a board with boxes their frames are drawn after the squares. -/
theorem drawBoard_eq (boxed : boxSize lines.length = .ok side) (several : 1 < side) :
    drawBoard s width lines givens false = (do
      (places lines.length).forM fun p =>
        drawSquare s (boardLeft s width lines.length) (marks lines) givens false p.1 p.2
      drawBoxes s (boardLeft s width lines.length) side) := by
  have framed : (!false && decide (1 < side)) = true := decide_eq_true several
  simp only [drawBoard, boxed, Paint.need]
  refine congrArg _ (funext fun _ => ?_)
  rw [Paint.ok_bind, if_pos framed]
  rfl

/-- No other frames are drawn. -/
theorem frames_drawBoard (boxed : boxSize lines.length = .ok side) (several : 1 < side)
    (done : (drawBoard s width lines givens false).result = .ok ()) :
    frames (drawBoard s width lines givens false).calls
      = (boxFrames s (boardLeft s width lines.length) side).map Rect.onScreen := by
  rw [drawBoard_eq boxed several] at done ⊢
  obtain ⟨⟨⟩, -, done, calls⟩ := Paint.of_bind done
  have none : ((places lines.length).forM fun p =>
      drawSquare s (boardLeft s width lines.length) (marks lines) givens false p.1 p.2).Makes
      (Call.frame? · = none) := .forM fun _ _ => frames_drawSquare
  rw [calls, frames, List.filterMap_append, List.filterMap_eq_nil_iff.2 none, List.nil_append]
  exact frames_drawBoxes done

/-! ## Drawing -/

/-- The frames of the boxes are in the range of coordinates. -/
def FramesFit (s : Settings) (left : Int) (side : Nat) : Prop :=
  ∀ f ∈ boxFrames s left side, f.Fits

instance (s : Settings) (left : Int) (side : Nat) : Decidable (FramesFit s left side) :=
  inferInstanceAs (Decidable (∀ f ∈ boxFrames s left side, f.Fits))

/-- The frames are the boxes of a board: there is exactly one around each square, and it is around just
those other squares that demand their symbols in the same sector. -/
structure FrameBoxes (s : Settings) (left : Int) (size : Nat) (frames : List Rect) : Prop where
  one : ∀ row < size, ∀ column < size,
    frames.countP (·.Covers (squareArea s left row column)) = 1
  named : ∀ row < size, ∀ column < size, ∀ v, ∃ name, sectorName size row column v = .ok name
  same : ∀ row < size, ∀ column < size, ∀ row' < size, ∀ column' < size, ∀ v,
    (∃ f ∈ frames, f.Covers (squareArea s left row column) ∧
      f.Covers (squareArea s left row' column')) ↔
      sectorName size row column v = sectorName size row' column' v

/-- Frames with numbers of any length are the boxes. -/
theorem frameBoxes_boxFrames (positive : 0 < s.cellSize) :
    FrameBoxes s left (side * side) (boxFrames s left side) where
  one := fun _ hr _ hc => countP_boxFrames positive hr hc
  named := fun _ hr _ hc v => ⟨_, sectorName_eq hr hc v⟩
  same := fun _ hr _ hc _ hr' _ hc' v =>
    (exists_boxFrame_iff positive hr hc).trans (sectorName_eq_iff hr hc hr' hc' v).symm

theorem onScreen_of_fit (fit : FramesFit s left side) :
    (boxFrames s left side).map Rect.onScreen = boxFrames s left side :=
  (List.map_congr_left fun f mem => (fit f mem).onScreen_eq).trans (List.map_id _)

/-- When words are the ends of something around a span, then the span and its start are words too. -/
theorem inRange_of_span {a start span : Int} (positive : 0 < span) (low : word a ≤ start)
    (high : start + span ≤ word a + word span) :
    (-0x80000000 ≤ start ∧ start < 0x80000000) ∧ -0x80000000 ≤ span ∧ span < 0x80000000 := by
  have same := word_eq_of_le positive (by omega)
  have starts : start = word a := by omega
  have length := word_inRange span
  rw [same] at length
  exact ⟨starts ▸ word_inRange a, length⟩

/-- A frame on the screen that goes around the first and the last square of a box is in the range of
coordinates. -/
theorem fits_of_covers (positive : 0 < s.cellSize) (any : 0 < side) {i j i' j' : Nat}
    (first : (boxFrame s left side i' j').onScreen.Covers (squareArea s left (i * side) (j * side)))
    (last : (boxFrame s left side i' j').onScreen.Covers
      (squareArea s left (i * side + (side - 1)) (j * side + (side - 1)))) :
    (boxFrame s left side i j).Fits := by
  obtain ⟨atLeft, -, atTop, -⟩ := first
  obtain ⟨-, atRight, -, atBottom⟩ := last
  have span : 0 < (side : Int) * s.cellSize := Int.mul_pos (by omega) positive
  have ends : ∀ k, k * side + (side - 1) + 1 = k * side + side := fun k => by omega
  simp only [boxFrame, Rect.onScreen, squareArea, squareCorner, ← mul_span] at atLeft atTop
  simp only [boxFrame, Rect.onScreen, squareArea, squareCorner, Int.add_assoc, mul_add_cell, ends,
    ← mul_add_span] at atRight atBottom
  rw [← mul_add_cell, ← Int.add_assoc] at atRight atBottom
  obtain ⟨across, length⟩ := inRange_of_span span atLeft atRight
  obtain ⟨down, -⟩ := inRange_of_span span atTop atBottom
  simp only [Rect.Fits, boxFrame, List.forall_mem_cons, List.not_mem_nil]
  exact ⟨across, down, length, length, nofun⟩

/-- Frames on the screen that are the boxes were in the range of coordinates. -/
theorem fit_of_frameBoxes (positive : 0 < s.cellSize) (any : 0 < side)
    (boxes : FrameBoxes s left (side * side) ((boxFrames s left side).map Rect.onScreen)) :
    FramesFit s left side := by
  have inside : ∀ {k}, k < side → k * side + (side - 1) < side * side := by
    intro k less
    have := Nat.mul_le_mul_right side (Nat.succ_le_of_lt less)
    rw [Nat.succ_mul] at this
    omega
  have first : ∀ {k}, k < side → k * side < side * side := fun less =>
    Nat.lt_of_le_of_lt (Nat.le_add_right _ _) (inside less)
  have starts : ∀ k, k * side / side = k := fun k => Nat.mul_div_cancel k any
  have ends : ∀ k, (k * side + (side - 1)) / side = k := fun k => by
    rw [Nat.div_eq_iff any]
    omega
  intro f mem
  obtain ⟨⟨i, j⟩, box, rfl⟩ := List.mem_map.1 mem
  obtain ⟨hi, hj⟩ := mem_places.1 box
  -- The first and the last square of the box are in one sector, so there is a frame around both.
  have sector := (sectorName_eq_iff (first hi) (first hj) (inside hi) (inside hj) "").2
    ⟨by rw [starts, ends], by rw [starts, ends]⟩
  obtain ⟨f, drawn, covers, covers'⟩ :=
    (boxes.same _ (first hi) _ (first hj) _ (inside hi) _ (inside hj) "").2 sector
  obtain ⟨_, meant, rfl⟩ := List.mem_map.1 drawn
  obtain ⟨p, -, rfl⟩ := List.mem_map.1 meant
  exact fits_of_covers positive any covers covers'

/-- A square is drawn when its numbers become coordinates at all. -/
theorem drawSquare_ok {onBoard givens : List Mark} {queens : Bool} {area : Rect}
    (made : Rect.of ((squareCorner s left row column).x + 2) ((squareCorner s left row column).y + 2)
      (s.cellSize - 4) (s.cellSize - 4) = .ok area) :
    (drawSquare s left onBoard givens queens row column).result = .ok () := by
  have ground : ∀ light, (drawGround area light).result = .ok () := by
    intro light
    cases light <;> rfl
  simp only [drawSquare, made, Paint.need, Paint.ok_bind]
  rw [Paint.bind_of_ok (ground _)]
  split
  · rfl
  · split <;> rfl

/-- When the frames of the boxes are in the range of coordinates, then the squares are drawn, -/
theorem drawSquare_of_fit {onBoard givens : List Mark} {queens : Bool} (positive : 0 < s.cellSize)
    (fit : FramesFit s left side) (hr : row < side * side) (hc : column < side * side) :
    (drawSquare s left onBoard givens queens row column).result = .ok () := by
  -- A square is between the ends of its box, so its numbers are hardly longer.
  have covers : (boxFrame s left side _ _).Covers (squareArea s left row column) :=
    (boxFrame_covers_iff positive (side_pos hr) _ _).2 ⟨rfl, rfl⟩
  have fits := fit _ (List.mem_map_of_mem (div_mem_places hr hc))
  simp only [Rect.Fits, List.forall_mem_cons] at fits
  obtain ⟨fitsX, fitsY, fitsWidth, fitsHeight, -⟩ := fits
  obtain ⟨atLeft, atRight, atTop, atBottom⟩ := covers
  simp only [boxFrame, squareArea] at *
  have short : ∀ n ∈ [(squareCorner s left row column).x + 2, (squareCorner s left row column).y + 2,
      s.cellSize - 4, s.cellSize - 4], -0x8000000000000000 ≤ n ∧ n < 0x8000000000000000 := by
    simp only [List.forall_mem_cons]
    refine ⟨⟨?_, ?_⟩, ⟨?_, ?_⟩, ⟨?_, ?_⟩, ⟨?_, ?_⟩, nofun⟩ <;> omega
  obtain ⟨area, made⟩ := Rect.exists_of short
  exact drawSquare_ok made

/-- and so are the frames. -/
theorem drawBoxes_of_fit (fit : FramesFit s left side) : (drawBoxes s left side).result = .ok () := by
  have each : ∀ p ∈ places side, (do
      let area ← Paint.need (boxRect s left side p.1 p.2)
      Paint.make [.rect boxColor area 2 (-1)] : Paint Unit).result = .ok () := by
    intro p mem
    have made : boxRect s left side p.1 p.2 = .ok (boxFrame s left side p.1 p.2) :=
      Rect.of_inRange (fit _ (List.mem_map_of_mem mem))
    rw [made]
    rfl
  exact congrArg Paint.result (Paint.forM_of_ok each)

/-- A board of four empty lines. -/
def fourLines : List String := ["....", "....", "....", "...."]

/-- Squares whose side is so long that it becomes the coordinate zero. -/
def hugeSquares : Settings := { cellSize := 0x100000000 }

end DancingLinks.Viewer
