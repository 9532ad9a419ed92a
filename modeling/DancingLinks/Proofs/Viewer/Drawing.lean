import DancingLinks.Proofs.Outcome
import DancingLinks.Proofs.Viewer.Marks
import DancingLinks.Viewer.History

/-!
# What is drawn

Two ways to speak of a piece of drawing, each with one rule for every way to put pieces together:
all its calls are of some kind (`Paint.Makes`), or it writes certain texts when it is not broken off
(`Paint.Writes`). The title bar writes the title and the number of the board (`writes_drawTopBar`),
and a board without queens writes the symbols on its squares (`writes_drawBoard`). When the board
completes a sudoku, the texts in the colour of the given squares are the given cells
(`given_drawBoard`).
-/

namespace DancingLinks.Viewer

open Sudoku (Board Cell isSymbol)
open Sudoku.Board (valueAt_eq_some_iff length_toLines)

namespace Paint

variable {α β : Type} {P : Call → Prop} {p : Paint α} {f : α → Paint β} {b : β}

/-- A sequence that is not broken off has parts that are not. -/
theorem of_bind (done : (p >>= f).result = .ok b) :
    ∃ a, p.result = .ok a ∧ (f a).result = .ok b ∧ (p >>= f).calls = p.calls ++ (f a).calls := by
  obtain ⟨calls, result⟩ := p
  cases result with
  | error fault => cases done
  | ok a => exact ⟨a, rfl, done, rfl⟩

/-- A piece that is not broken off is followed by the next one. -/
theorem bind_of_ok {a : α} (begun : p.result = .ok a) :
    (p >>= f) = ⟨p.calls ++ (f a).calls, (f a).result⟩ := by
  obtain ⟨calls, result⟩ := p
  cases begun
  rfl

/-- What the first piece of a sequence does not call is called by the rest, if at all. -/
theorem of_mem_bind {call : Call} (mem : call ∈ (p >>= f).calls) (new : call ∉ p.calls) :
    ∃ a, p.result = .ok a ∧ call ∈ (f a).calls := by
  cases begun : p.result with
  | error fault =>
    obtain ⟨calls, result⟩ := p
    cases begun
    exact absurd mem new
  | ok a =>
    rw [bind_of_ok begun] at mem
    exact ⟨a, rfl, (List.mem_append.1 mem).resolve_left new⟩

/-- Pieces of which none is broken off make all their calls, and only these. -/
theorem of_forM {xs : List α} {f : α → Paint Unit} (done : (xs.forM f).result = .ok ()) :
    (∀ x ∈ xs, (f x).result = .ok ()) ∧ (xs.forM f).calls = xs.flatMap fun x => (f x).calls := by
  have each : ∀ x ∈ xs, (f x).result = .ok () := by
    induction xs with
    | nil => nofun
    | cons x xs ih =>
      obtain ⟨⟨⟩, first, rest, -⟩ := of_bind (p := f x) (f := fun _ => xs.forM f) done
      exact List.forall_mem_cons.2 ⟨first, ih rest⟩
  exact ⟨each, by rw [forM_of_ok each]⟩

/-! ## Kinds of calls -/

/-- All calls of a piece are of some kind, even when it is broken off. -/
def Makes (P : Call → Prop) (p : Paint α) : Prop := ∀ call ∈ p.calls, P call

theorem Makes.pure (a : α) : Makes P (Pure.pure a : Paint α) := nofun

theorem Makes.need (value : Except Fault α) : Makes P (Paint.need value) := nofun

theorem Makes.make {calls : List Call} (all : ∀ call ∈ calls, P call) :
    Makes P (Paint.make calls) :=
  all

theorem Makes.bind (first : p.Makes P) (rest : ∀ a, (f a).Makes P) : (p >>= f).Makes P := by
  obtain ⟨calls, result⟩ := p
  cases result with
  | error fault => exact first
  | ok a =>
    intro call mem
    rcases List.mem_append.1 mem with mem | mem
    · exact first call mem
    · exact rest a call mem

theorem Makes.forM {xs : List α} {f : α → Paint Unit} (each : ∀ x ∈ xs, (f x).Makes P) :
    (xs.forM f).Makes P := by
  induction xs with
  | nil => exact Makes.pure ()
  | cons x xs ih =>
    obtain ⟨first, rest⟩ := List.forall_mem_cons.1 each
    exact first.bind fun _ => ih rest

/-! ## Texts -/

/-- When a piece is not broken off, it puts some texts on the screen. -/
def Writes (ws : List Writing) (p : Paint α) : Prop :=
  ∀ a, p.result = .ok a → ∀ rest, written (p.calls ++ rest) = ws ++ written rest

variable {ws ws' : List Writing}

theorem Writes.written_eq {a : α} (writes : p.Writes ws) (done : p.result = .ok a) :
    written p.calls = ws := by
  have all := writes a done []
  rwa [List.append_nil, written, List.append_nil] at all

theorem Writes.pure (a : α) : Writes [] (Pure.pure a : Paint α) := fun _ _ _ => rfl

theorem Writes.need (value : Except Fault α) : Writes [] (Paint.need value) := fun _ _ _ => rfl

theorem Writes.bind (first : p.Writes ws) (rest : ∀ a, p.result = .ok a → (f a).Writes ws') :
    (p >>= f).Writes (ws ++ ws') := by
  intro b done calls
  obtain ⟨a, begun, ended, all⟩ := of_bind done
  rw [all, List.append_assoc, first a begun, rest a begun b ended, List.append_assoc]

/-- Pieces that write nothing themselves may stand before others. -/
theorem Writes.then (first : p.Writes []) (rest : ∀ a, p.result = .ok a → (f a).Writes ws) :
    (p >>= f).Writes ws :=
  first.bind rest

theorem Writes.forM {xs : List α} {f : α → Paint Unit} {texts : α → List Writing}
    (each : ∀ x ∈ xs, (f x).Writes (texts x)) : (xs.forM f).Writes (xs.flatMap texts) := by
  induction xs with
  | nil => exact Writes.pure ()
  | cons x xs ih =>
    obtain ⟨first, rest⟩ := List.forall_mem_cons.1 each
    exact first.bind fun _ _ => ih rest

/-- Pieces that write nothing write nothing one after another. -/
theorem Writes.silent {xs : List α} {f : α → Paint Unit} (each : ∀ x ∈ xs, (f x).Writes []) :
    (xs.forM f).Writes [] := by
  have all := Writes.forM each
  rwa [List.flatMap_eq_nil_iff.2 fun _ _ => rfl] at all

end Paint

open Paint

/-! ## No frame is finished by drawing -/

/-- The call does not finish a frame. -/
abbrev Unfinished (call : Call) : Prop := call ≠ .flip

theorem unfinished_drawText {content : String} {color : Color} {font : Font} {corner : Point} :
    (drawText content color font corner).Makes Unfinished :=
  .make (by simp)

theorem unfinished_drawTextAround {content : String} {color : Color} {font : Font}
    {middle : Point} : (drawTextAround content color font middle).Makes Unfinished :=
  .bind (.make (by simp)) fun _ => .bind (.need _) fun _ => .make (by simp)

theorem unfinished_drawTopBar {width : Int} {title : String} {index total : Int} :
    (drawTopBar width title index total).Makes Unfinished :=
  .bind (.make (by simp [Call.fillRect])) fun _ => .bind (.need _) fun _ =>
    .bind (.make (by simp)) fun _ => .bind unfinished_drawText fun _ => .bind (.need _) fun _ =>
      unfinished_drawText

theorem unfinished_drawGround {area : Rect} {light : Bool} :
    (drawGround area light).Makes Unfinished := by
  cases light with
  | true => exact .make (by simp)
  | false => exact .make (by simp)

theorem unfinished_drawSquare {s : Settings} {left : Int} {onBoard givens : List Mark}
    {queens : Bool} {row column : Nat} :
    (drawSquare s left onBoard givens queens row column).Makes Unfinished := by
  refine .bind (.need _) fun area => .bind unfinished_drawGround fun _ => ?_
  split
  · exact .pure ()
  · split
    · exact .make (by simp)
    · exact unfinished_drawText

theorem unfinished_drawBoard {s : Settings} {width : Int} {lines : List String}
    {givens : List Mark} {queens : Bool} :
    (drawBoard s width lines givens queens).Makes Unfinished := by
  refine .bind (.forM fun _ _ => unfinished_drawSquare) fun _ => .bind (.need _) fun side => ?_
  split
  · exact .forM fun _ _ => .bind (.need _) fun _ => .make (by simp)
  · exact .pure ()

theorem unfinished_drawMenu {screen : Size} {mouse : Point} :
    (drawMenu screen mouse).Makes Unfinished := by
  refine .bind (.make (by simp)) fun _ => .bind unfinished_drawTextAround fun _ =>
    .bind (.need _) fun areas => .forM fun button _ => ?_
  exact .bind (.need _) fun _ => .bind (.make (by simp)) fun _ => unfinished_drawTextAround

/-! ## The title bar -/

theorem writes_drawText {content : String} {color : Color} {font : Font} {corner : Point} :
    (drawText content color font corner).Writes [⟨content, color, font, corner⟩] :=
  fun _ _ _ => if_pos rfl

/-- The card of the title bar stands in its corner, however wide the screen is. -/
theorem corner_of_card {width height : Int} {card : Rect}
    (made : Rect.of 16 16 width height = .ok card) : card.x = 16 ∧ card.y = 16 := by
  have there : coordinate? 16 = some 16 := by decide
  unfold Rect.of at made
  rw [there] at made
  split at made
  · next hx hy _ _ =>
    cases hx
    cases hy
    cases made
    exact ⟨rfl, rfl⟩
  · cases made

theorem writes_drawTopBar {width index total : Int} {title count : String}
    (counted : countText index total = .ok count) :
    (drawTopBar width title index total).Writes (barWritings title count) := by
  refine .then (fun _ _ _ => rfl) fun _ _ => .then (.need _) fun card made => ?_
  obtain ⟨x, y⟩ := corner_of_card made
  rw [x, y, counted]
  refine .then (fun _ _ _ => rfl) fun _ _ => ?_
  exact .bind writes_drawText fun _ _ => .then (.need _) fun _ same => by
    cases same
    exact writes_drawText

/-! ## Boards -/

/-- The text that the symbol of a square is written as. -/
def symbolWriting (s : Settings) (corner : Point) (symbol : String) (given : Bool) : Writing :=
  let size := cellFont.sizeOf symbol
  ⟨symbol, if given then givenColor else filledColor, cellFont,
    ⟨corner.x + (s.cellSize - size.width) / 2, corner.y + (s.cellSize - size.height) / 2⟩⟩

/-- The texts on a square of a board without queens: the symbol that the board has there, in a
colour of its own when the puzzle fixed the square. -/
def squareWritings (s : Settings) (left : Int) (onBoard givens : List Mark) (row column : Nat) :
    List Writing :=
  ((onBoard.find? (Mark.isAt row column)).map fun mark =>
    symbolWriting s (squareCorner s left row column) mark.symbol
      (givens.any (Mark.isAt row column))).toList

theorem writes_drawGround {area : Rect} {light : Bool} : (drawGround area light).Writes [] := by
  cases light with
  | true => exact fun _ _ _ => rfl
  | false => exact fun _ _ _ => rfl

theorem writes_drawSquare {s : Settings} {left : Int} {onBoard givens : List Mark}
    {row column : Nat} :
    (drawSquare s left onBoard givens false row column).Writes
      (squareWritings s left onBoard givens row column) := by
  refine .then (.need _) fun area _ => .then writes_drawGround fun _ _ => ?_
  unfold squareWritings
  split
  · next empty =>
    have found : onBoard.find? (Mark.isAt row column) = none := empty
    rw [found]
    exact .pure ()
  · next mark there =>
    have found : onBoard.find? (Mark.isAt row column) = some mark := there
    rw [found]
    exact writes_drawText

/-- A board without queens writes the symbols on its squares, row by row. -/
theorem writes_drawBoard {s : Settings} {width : Int} {lines : List String} {givens : List Mark} :
    (drawBoard s width lines givens false).Writes
      ((places lines.length).flatMap fun p =>
        squareWritings s (boardLeft s width lines.length) (marks lines) givens p.1 p.2) := by
  rw [← List.append_nil (List.flatMap _ _)]
  refine .bind (.forM fun _ _ => writes_drawSquare) fun _ _ => .then (.need _) fun side _ => ?_
  split
  · exact .silent fun _ _ => .then (.need _) fun _ _ _ _ _ => rfl
  · exact .pure ()

/-! ## Boards that complete a puzzle -/

section Given
variable {puzzle t : Board} {s : Settings} {left width : Int}

theorem givenWriting_eq (i j : Nat) (v : String) :
    givenWriting s left ⟨⟨i + 1, j + 1⟩, v⟩ = symbolWriting s (squareCorner s left i j) v true := by
  simp [givenWriting, symbolWriting]

/-- On a square of a board that completes a puzzle, the text in the colour of the given squares is
that of the given cell there. -/
theorem given_squareWritings (completes : t.Completes puzzle)
    (symbols : ∀ c ∈ puzzle.cells, isSymbol c.value = true)
    (symbols' : ∀ c ∈ t.cells, isSymbol c.value = true) {i j : Nat}
    (hi : i < puzzle.size.toNat) (hj : j < puzzle.size.toNat) :
    (squareWritings s left (marks t.toLines) (marks puzzle.toLines) i j).filter
        (·.color = givenColor) =
      ((puzzle.valueAt ⟨i + 1, j + 1⟩).map fun v =>
        givenWriting s left ⟨⟨i + 1, j + 1⟩, v⟩).toList := by
  have size := completes.size
  have given : (marks puzzle.toLines).any (Mark.isAt i j) =
      (puzzle.valueAt ⟨i + 1, j + 1⟩).isSome := by
    rw [← List.isSome_find?, find_marks_toLines symbols hi hj, Option.isSome_map]
  rw [squareWritings, given, find_marks_toLines symbols' (size ▸ hi) (size ▸ hj)]
  cases here : puzzle.valueAt ⟨i + 1, j + 1⟩ with
  | none => cases t.valueAt ⟨i + 1, j + 1⟩ <;> rfl
  | some v =>
    have kept : t.valueAt ⟨i + 1, j + 1⟩ = some v :=
      valueAt_eq_some_iff.2 (completes.keeps _ (valueAt_eq_some_iff.1 here))
    rw [kept, Option.map_some, Option.map_some, Option.map_some, givenWriting_eq]
    rfl

/-- On a board that completes a puzzle, the texts in the colour of the given squares are the given
cells. -/
theorem given_drawBoard (completes : t.Completes puzzle)
    (onBoard : ∀ c ∈ puzzle.cells, c.square.OnBoard puzzle.size)
    (symbols : ∀ c ∈ puzzle.cells, isSymbol c.value = true)
    (symbols' : ∀ c ∈ t.cells, isSymbol c.value = true) :
    ∃ ws, (drawBoard s width t.toLines (marks puzzle.toLines) false).Writes ws ∧
      ws.filter (·.color = givenColor) =
        puzzle.cells.map (givenWriting s (boardLeft s width puzzle.size.toNat)) := by
  have length : t.toLines.length = puzzle.size.toNat := by rw [length_toLines, completes.size]
  refine ⟨_, writes_drawBoard, ?_⟩
  rw [length, List.filter_flatMap]
  calc (places puzzle.size.toNat).flatMap _
    _ = (places puzzle.size.toNat).flatMap fun p =>
          ((puzzle.valueAt ⟨p.1 + 1, p.2 + 1⟩).map fun v =>
            givenWriting s (boardLeft s width puzzle.size.toNat) ⟨⟨p.1 + 1, p.2 + 1⟩, v⟩).toList :=
        List.flatMap_congr fun p mem => by
          obtain ⟨hi, hj⟩ := mem_places.1 mem
          exact given_squareWritings completes symbols symbols' hi hj
    _ = (allSquares puzzle.size).filterMap fun square =>
          ((puzzle.valueAt square).map (Cell.mk square)).map
            (givenWriting s (boardLeft s width puzzle.size.toNat)) := by
        rw [allSquares_eq, List.filterMap_map, List.filterMap_eq_flatMap_toList]
        simp only [Function.comp_def, Option.map_map]
    _ = puzzle.cells.map (givenWriting s (boardLeft s width puzzle.size.toNat)) := by
        rw [← List.map_filterMap, filterMap_allSquares onBoard]

end Given

end DancingLinks.Viewer
