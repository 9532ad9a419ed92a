import DancingLinks.Proofs.Queens.Covers
import DancingLinks.Proofs.Sudoku.Covers
import DancingLinks.Proofs.Sudoku.Reading
import DancingLinks.Viewer.Puzzles

/-!
# Which boards are shown

The settings may limit a search, and how many boards are shown. What is shown of a puzzle are the first
boards that a search without a limit finds, as many as the settings allow (`shown_boards`). The boards of
queens are found row by row, whatever selector is set.

With the boards of a sudoku come its given cells, as marks counted from zero (`marks_toLines`). Every board
that is shown carries them.
-/

namespace DancingLinks.Viewer

open Sudoku (Cell emptySymbol isSymbol)
open Sudoku.Board

variable {α : Type} {s : Settings} {o : Options} {selector : Selector} {lines : List String}
  {cells : List Cell} {puzzle : Sudoku.Board} {n : Int} {first width : Nat}

/-! ## Limits -/

/-- How many boards the settings allow to be shown: no more than the limit of a search, nor than the
viewer shows at most, if this is positive. Without either there is no bound. -/
def shownBound (s : Settings) : Option Nat :=
  Option.merge min (s.solutionLimit.map Int.toNat)
    (if s.maxView ≤ 0 then none else some s.maxView.toNat)

/-- The first elements of a list, as many as a bound allows. -/
def firstOf (bound : Option Nat) (xs : List α) : List α :=
  match bound with
  | none => xs
  | some k => xs.take k

theorem mem_of_mem_firstOf {bound : Option Nat} {x : α} {xs : List α} (mem : x ∈ firstOf bound xs) :
    x ∈ xs := by
  unfold firstOf at mem
  split at mem
  · exact mem
  · exact List.mem_of_mem_take mem

/-- How many solutions a search looks for. -/
def boundOf (limit : Option Limit) : Option Nat := limit.map Limit.count

/-- A search finds the first solutions that its limit allows. -/
theorem cut_eq_firstOf (o : Options) (xs : List α) : o.cut xs = firstOf (boundOf o.limit) xs := by
  unfold Options.cut firstOf boundOf
  cases o.limit <;> rfl

/-- The viewer shows boundlessly many boards, or a positive number of them. -/
theorem boundOf_viewLimit (s : Settings) :
    boundOf s.viewLimit = if s.maxView ≤ 0 then none else some s.maxView.toNat := by
  unfold Settings.viewLimit
  split
  · rw [if_neg (by omega)]
    rfl
  · rw [if_pos (by omega)]
    rfl

/-- Of two limits the smaller one counts. -/
theorem boundOf_capped (s : Settings) (o : Options) :
    boundOf (s.capped o).limit = Option.merge min (boundOf o.limit) (boundOf s.viewLimit) := by
  unfold Settings.capped boundOf
  cases s.viewLimit with
  | none => cases o.limit <;> rfl
  | some cap =>
    cases limited : o.limit with
    | none => rfl
    | some limit =>
      have both : Option.merge min (some limit.count) (some cap.count)
          = some (min limit.count cap.count) := rfl
      dsimp only [Option.map_some]
      split
      · next below => rw [limited, both, Nat.min_eq_left below, Option.map_some]
      · next above => rw [both, Nat.min_eq_right (by omega), Option.map_some]

/-! ## Searches -/

/-- Only the limit of a search is changed. -/
theorem capped_eq (s : Settings) (o : Options) : s.capped o = { o with limit := (s.capped o).limit } := by
  unfold Settings.capped
  split
  · rfl
  · split <;> rfl
  · rfl

/-- Nobody listens to the searches of the viewer. -/
theorem silent_options (made : s.options = .ok o) : o.listener = none := by
  obtain ⟨selector, -, made⟩ := ok_of_bind made
  split at made <;>
  · obtain ⟨limit, -, made⟩ := ok_of_bind made
    cases made
    rfl

theorem patient_capped (silent : o.listener = none) : (s.capped o).Patient := by
  rw [capped_eq, Options.Patient, silent]
  exact fun listener attached => by cases attached

/-- The settings with a selector that is known, and a positive limit if there is one, are the options of
a search. -/
theorem options_ok (known : Selector.ofName s.selectorName = .ok selector)
    (positive : ∀ l ∈ s.solutionLimit, 0 < l) : ∃ o, s.options = .ok o ∧ o.selector = selector ∧
      Option.merge min (boundOf o.limit) (boundOf s.viewLimit) = shownBound s := by
  unfold Settings.options shownBound
  rw [known, boundOf_viewLimit]
  cases limited : s.solutionLimit with
  | none => exact ⟨_, rfl, rfl, rfl⟩
  | some l =>
    have pos : 0 < l.toNat := by have := positive l limited; omega
    have limit : Limit.ofInput (.whole l) = .ok ⟨l.toNat, pos⟩ := dif_pos pos
    simp only [limit]
    exact ⟨_, rfl, rfl, rfl⟩

/-- With the options of the viewer a search finds the first of all solutions, as many as may be shown. -/
theorem solve_capped {solve : Options → Except Fault (List α)} (uniform : Uniform solve)
    (silent : o.listener = none)
    (bound : Option.merge min (boundOf o.limit) (boundOf s.viewLimit) = shownBound s) :
    solve (s.capped o) = (solve { selector := o.selector }).map (firstOf (shownBound s)) := by
  have cut : (s.capped o).cut = firstOf (α := α) (shownBound s) := by
    funext xs
    rw [cut_eq_firstOf, boundOf_capped, bound]
  have selector : (s.capped o).selector = o.selector := by rw [capped_eq]
  rw [uniform.cut _ (patient_capped silent), selector, cut]

/-! ## Given cells -/

/-- The mark of a cell. Marks are counted from zero. -/
def markOf (c : Cell) : Mark := ⟨c.square.row - 1, c.square.column - 1, c.value⟩

/-- The marks on a line are those of its cells, -/
theorem marksOnLine_eq (row column : Int) (cs : List Char) :
    marksOnLine row column cs = (cellsOnLine (row + 1) (column + 1) cs).map markOf := by
  induction cs generalizing column with
  | nil => rfl
  | cons x cs ih =>
    rw [marksOnLine, cellsOnLine, ih (column + 1)]
    by_cases empty : x = emptySymbol
    · have dot : x = '.' := empty
      rw [if_pos dot, if_pos empty]
    · have noDot : ¬x = '.' := empty
      rw [if_neg noDot, if_neg empty, List.map_cons, markOf, Int.add_sub_cancel, Int.add_sub_cancel]

/-- and so are those on lines that are read. -/
theorem marksFrom_eq (read : cellsOnLines width (first + 1) lines = .ok cells) :
    marksFrom first lines = cells.map markOf := by
  induction lines generalizing first cells with
  | nil =>
    cases read
    rfl
  | cons line lines ih =>
    obtain ⟨-, rest, later, rfl⟩ := of_cellsOnLines_cons read
    have below := ih later
    rw [Int.natCast_add, Int.natCast_one] at below
    rw [marksFrom, marksOnLine_eq, below, List.map_append]
    rfl

/-- The marks on the lines of a puzzle that was read are those of its cells. -/
theorem marks_toLines (parsed : Sudoku.Board.parse lines = .ok puzzle) :
    marks puzzle.toLines = puzzle.cells.map markOf := by
  have written : puzzle.toLines = gridRows lines :=
    toLines_of_describes (wellFormed_of_readRows parsed) (describes_of_readRows parsed)
  obtain ⟨cells, read, parsed⟩ := ok_of_bind parsed
  obtain ⟨alphabet, -, made⟩ := ok_of_bind parsed
  have inOrder : sorted cells = cells :=
    sorted_eq_self ((pairwise_cellsOnLines read).imp fun {c d} less => Cell.lt_asymm c d (.inl less))
  rw [written, (eq_of_of made).2.2, inOrder]
  exact marksFrom_eq read

/-- The lines have the symbol of a mark at its place. -/
def Carries (lines : List String) (m : Mark) : Prop :=
  ∃ (i j : Nat) (x : Char), m = ⟨i, j, String.singleton x⟩ ∧
    (lines[i]?.bind fun line => line.toList[j]?) = some x

/-- The values of a board that completes a sound one are symbols. -/
theorem symbols_of_completes {t : Sudoku.Board} (sound : puzzle.encoding.Sound)
    (completes : t.Completes puzzle) : ∀ c ∈ t.cells, isSymbol c.value = true := fun c mem =>
  sound.symbols _ (((completes_iff_filling sound).1 completes).2.2.possible c mem).2

/-- A board that completes a puzzle carries its given cells. -/
theorem carries_of_completes {t : Sudoku.Board} (sound : puzzle.encoding.Sound)
    (completes : t.Completes puzzle) : ∀ c ∈ puzzle.cells, Carries t.toLines (markOf c) := by
  intro c given
  have onBoard : ∀ d ∈ t.cells, d.square.OnBoard t.size := fun d mem =>
    mem_allSquares.1 (completes.full ▸ List.mem_map_of_mem mem)
  obtain ⟨x, ⟨i, j, square, shown⟩, -, value⟩ :=
    (mem_cells_iff_showsAt (symbols_of_completes sound completes) onBoard).1 (completes.keeps c given)
  refine ⟨i, j, x, ?_, shown⟩
  rw [markOf, square, value, Int.add_sub_cancel, Int.add_sub_cancel]

/-! ## What is shown -/

/-- The boards of queens that are shown are found row by row. -/
theorem solveQueens_eq (known : Selector.ofName s.selectorName = .ok selector)
    (positive : ∀ l ∈ s.solutionLimit, 0 < l) (n : Int) :
    solveQueens s n = (Queens.Board.of n []).solve.map fun boards =>
      (firstOf (shownBound s) boards).map Queens.Board.toLines := by
  obtain ⟨o, options, -, bound⟩ := options_ok known positive
  have silent : o.listener = none := silent_options options
  have capped : (Queens.Board.of n []).solve (s.capped { o with selector := .first })
      = (Queens.Board.of n []).solve.map (firstOf (shownBound s)) :=
    solve_capped (o := { o with selector := .first }) (Queens.Board.of n []).uniform silent bound
  simp only [solveQueens, options, capped, bind, Except.bind]
  cases (Queens.Board.of n []).solve <;> rfl

/-- An empty board of queens is solved. -/
theorem exists_solve_of_empty (size : 1 ≤ n) (short : n.toNat < Text.Integer.writeBound) :
    ∃ boards, (Queens.Board.of n []).solve = .ok boards := by
  have onBoard : (Square.mk 1 1).OnBoard n := ⟨Int.le_refl 1, size, Int.le_refl 1, size⟩
  have noQueen : ∀ q, q ∉ (Queens.Board.of n []).queens := fun _ => List.not_mem_nil
  have empty : (Queens.Board.of n []).Open := ⟨⟨1, 1⟩, onBoard, fun q mem => absurd mem (noQueen q)⟩
  obtain ⟨boards, -, -, solved⟩ :=
    Queens.Board.solve_ok size short (fun q mem => absurd mem (noQueen q)) empty .first
  exact ⟨_, solved Queens.Board.defaultOptions rfl nofun⟩

/-- The boards of a sudoku that are shown are found with the selector that is set. -/
theorem solveSudoku_ok (known : Selector.ofName s.selectorName = .ok selector)
    (positive : ∀ l ∈ s.solutionLimit, 0 < l) (parsed : parse lines = .ok puzzle) :
    ∃ boards, puzzle.solve { selector } = .ok boards ∧ (∀ t ∈ boards, t.Completes puzzle) ∧
      solveSudoku s lines = .ok ⟨(firstOf (shownBound s) boards).map toLines,
        puzzle.cells.map markOf, puzzle.size⟩ := by
  obtain ⟨o, options, rfl, bound⟩ := options_ok known positive
  obtain ⟨sound, inOrder⟩ := sound_of_parse parsed
  obtain ⟨boards, -, completes, solved⟩ := Sudoku.Board.solve_ok sound inOrder o.selector
  have all : puzzle.solve { selector := o.selector } = .ok boards := solved _ rfl nofun
  have capped : puzzle.solve (s.capped o) = .ok (firstOf (shownBound s) boards) := by
    rw [solve_capped (Sudoku.Board.uniform sound.size) (silent_options options) bound, all]
    rfl
  refine ⟨boards, all, fun t ht => (completes t).1 ht, ?_⟩
  simp only [solveSudoku, parsed, options, capped, marks_toLines parsed, bind, Except.bind]
  rfl

/-- The boards that are shown are the first ones of all, as many as the settings allow. For queens these
are the boards that are found with the default options, in their order, and such a search succeeds as
long as the size can be written. For a sudoku that can be read they are found with the selector that is
set; they come with the size of the puzzle, and with marks for its cells, which all of them carry. -/
theorem shown_boards (known : Selector.ofName s.selectorName = .ok selector)
    (positive : ∀ l ∈ s.solutionLimit, 0 < l) :
    (∀ n : Int, 1 ≤ n →
      solveQueens s n = (Queens.Board.of n []).solve.map (fun boards =>
        (firstOf (shownBound s) boards).map Queens.Board.toLines) ∧
      (n.toNat < Text.Integer.writeBound → ∃ boards, (Queens.Board.of n []).solve = .ok boards)) ∧
    ∀ (lines : List String) (puzzle : Sudoku.Board), parse lines = .ok puzzle →
      ∃ boards solved, puzzle.solve { selector } = .ok boards ∧ solveSudoku s lines = .ok solved ∧
        solved.boards = (firstOf (shownBound s) boards).map toLines ∧
        solved.size = puzzle.size ∧ solved.givens = puzzle.cells.map markOf ∧
        ∀ board ∈ solved.boards, ∀ m ∈ solved.givens, Carries board m := by
  refine ⟨fun n size => ⟨solveQueens_eq known positive n, exists_solve_of_empty size⟩,
    fun lines puzzle parsed => ?_⟩
  obtain ⟨boards, all, completes, shown⟩ := solveSudoku_ok known positive parsed
  refine ⟨boards, _, all, shown, rfl, rfl, rfl, fun board mem m given => ?_⟩
  obtain ⟨t, ht, rfl⟩ := List.mem_map.1 mem
  obtain ⟨c, hc, rfl⟩ := List.mem_map.1 given
  have found : t ∈ boards := mem_of_mem_firstOf ht
  exact carries_of_completes (sound_of_parse parsed).1 (completes t found) c hc

/-- A limit of three solutions, of which two are shown. -/
def twoShown : Settings := { selectorName := " First ", solutionLimit := some 3, maxView := 2 }

/-- Two of the boards of six queens are shown, and both solutions of a sudoku, with its only cell. -/
theorem shown_boards_sample :
    shownBound twoShown = some 2 ∧
    (∃ boards, (Queens.Board.of 6 []).solve = .ok boards ∧
      solveQueens twoShown 6 = .ok ((boards.take 2).map Queens.Board.toLines)) ∧
    ∃ solved, solveSudoku twoShown ["1.", ".."] = .ok solved ∧ solved.givens = [⟨0, 0, "1"⟩] ∧
      ∀ board ∈ solved.boards, Carries board ⟨0, 0, "1"⟩ := by
  have bound : shownBound twoShown = some 2 := rfl
  have known : Selector.ofName twoShown.selectorName = .ok .first := rfl
  obtain ⟨queens, sudoku⟩ := shown_boards known (by decide)
  obtain ⟨shown, solves⟩ := queens 6 (by decide)
  obtain ⟨boards, solved⟩ := solves (by decide +kernel)
  have parsed : parse ["1.", ".."] = .ok ⟨2, [⟨⟨1, 1⟩, "1"⟩], ["1", "2"], by decide⟩ :=
    eq_ok_of_toOption (by decide +kernel)
  obtain ⟨-, answer, -, found, -, -, givens, carried⟩ := sudoku _ _ parsed
  refine ⟨bound, ⟨boards, solved, ?_⟩, answer, found, givens, fun board mem => ?_⟩
  · rw [shown, solved, bound]
    rfl
  · exact carried board mem _ (givens ▸ List.mem_singleton_self _)

end DancingLinks.Viewer
