import DancingLinks.Proofs.Queens.Placement
import DancingLinks.Search

/-!
# The solutions of a board of queens

Solving a board with an open square finds exactly the boards that complete it, each of them once,
whatever column the search branches on (`Board.solve_ok`, `Board.solve_finds_completions`). A board
without an open square has no completion (`Board.open_of_completes`), but its constraint lines are
refused, so that solving it fails instead of finding nothing (`Board.solve_of_closed`). These are all
the boards on which a search fails (`Board.solve_answers_iff_open`).

Numbers of more than `Text.Integer.maxDigits` digits are neither written nor read, so boards are not
to be that large.
-/

namespace DancingLinks.Queens

variable {n : Int} {squares : List Square} {b s : Board} {o : Options}

namespace Board

/-! ## Boards and placements -/

/-- The queens of a board that is made of different squares. -/
theorem queens_of_perm (nodup : squares.Nodup) : (of n squares).queens.Perm squares :=
  (List.perm_ext_iff_of_nodup (Square.nodup_of_increasing (of n squares).ordered) nodup).2 fun _ =>
    mem_distinctSorted Square.eq_of_not_lt

/-- A board is made of its queens, in whichever order. -/
theorem of_perm (perm : squares.Perm s.queens) (size : s.size = n) : of n squares = s := by
  have nodup : squares.Nodup := perm.nodup_iff.2 (Square.nodup_of_increasing s.ordered)
  have same : (of n squares).queens = s.queens :=
    eq_of_perm Square.lt_asymm (of n squares).ordered s.ordered ((queens_of_perm nodup).trans perm)
  cases s
  simp only [of, mk.injEq]
  exact ⟨size.symm, same⟩

/-- The encoding of a board with squares. -/
def encoding (b : Board) (positive : 1 ≤ b.size) : Encoding := ⟨b.size, b.queens, positive⟩

/-- The boards that complete a board are the placements. -/
theorem completes_iff_placement (positive : 1 ≤ b.size) :
    s.Completes b ↔ s.size = b.size ∧ (b.encoding positive).Placement s.queens := by
  constructor
  · intro completes
    obtain ⟨size, onBoard, full, peaceful, keeps⟩ := completes
    exact ⟨size, by rwa [size] at onBoard, by rwa [size] at full, peaceful, keeps⟩
  · rintro ⟨size, onBoard, full, peaceful, keeps⟩
    exact ⟨size, by rw [size]; exact onBoard, by rw [size]; exact full, peaceful, keeps⟩

/-- The names of squares of a board are decoded. -/
theorem ofNames_eq (short : n.toNat < Text.Integer.writeBound)
    (onBoard : ∀ s ∈ squares, s.OnBoard n) :
    ofNames n (squares.map squareName) = .ok (of n squares) := by
  have squaresRead : (squares.map squareName).mapM readSquareName = .ok squares := by
    rw [List.mapM_map]
    refine (mapM_ok fun s hs => ?_).trans (congrArg _ (List.map_id squares))
    exact readSquareName_squareName (named_of_onBoard short (onBoard s hs))
  simp only [ofNames, squaresRead, bind, Except.bind]
  rfl

/-! ## Boards with an open square -/

/-- Some square of the board is attacked by none of its queens. -/
def Open (b : Board) : Prop := ∃ s : Square, s.OnBoard b.size ∧ ∀ q ∈ b.queens, s ∉ attacked b.size q

theorem open_iff (positive : 1 ≤ b.size) : b.Open ↔ (b.encoding positive).openSquares ≠ [] := by
  constructor
  · rintro ⟨s, open_⟩
    exact List.ne_nil_of_mem (Encoding.mem_openSquares_iff.2 open_)
  · intro any
    obtain ⟨s, hs⟩ := List.exists_mem_of_ne_nil _ any
    exact ⟨s, Encoding.mem_openSquares_iff.1 hs⟩

/-- A search encodes the board first. -/
theorem search_eq (positive : 1 ≤ b.size) (o : Options) :
    b.search o = solveEncoded (b.encoding positive).lines (ofNames b.size) o := by
  have encoded : Encoding.of b.size b.queens = .ok (b.encoding positive) := dif_pos positive
  simp only [search, encoded, bind, Except.bind]

/-- Solving a board with an open square finds the boards that complete it, each of them once, for
every selector; a limit cuts them off. -/
theorem solve_ok (positive : 1 ≤ b.size) (short : b.size.toNat < Text.Integer.writeBound)
    (given : ∀ q ∈ b.queens, q.OnBoard b.size) (any : b.Open) (selector : Selector) :
    ∃ boards : List Board, boards.Nodup ∧ (∀ s, s ∈ boards ↔ s.Completes b) ∧
      ∀ o : Options, o.selector = selector → o.Patient → b.solve o = .ok (o.cut boards) := by
  obtain ⟨m, choices, made, built, encodes⟩ :=
    Encoding.ofConstraintLines_ok (Encoding.readSquare_squareName short) ((open_iff positive).1 any)
  obtain ⟨found, different, fits, solved⟩ := solveLines_fits made built encodes selector
  have placements : ∀ squares, (∃ squares' ∈ found, squares'.Perm squares) ↔
      (b.encoding positive).Placement squares := fun squares =>
    (fits squares).trans (Encoding.fits_iff_placement given)
  have placement : ∀ squares ∈ found, (b.encoding positive).Placement squares :=
    fun squares mem => (placements squares).1 ⟨squares, mem, .refl squares⟩
  have queens_perm : ∀ squares ∈ found, (of b.size squares).queens.Perm squares :=
    fun squares mem => queens_of_perm (placement squares mem).nodup
  refine ⟨found.map (of b.size), ?_, fun s => ?_, ?_⟩
  · rw [List.Nodup, List.pairwise_map]
    refine different.imp_of_mem fun {squares squares'} hs hs' differ same => differ ?_
    exact (queens_perm squares hs).symm.trans (same ▸ queens_perm squares' hs')
  · rw [completes_iff_placement positive, List.mem_map]
    constructor
    · rintro ⟨squares, mem, rfl⟩
      exact ⟨rfl, (placements _).1 ⟨squares, mem, (queens_perm squares mem).symm⟩⟩
    · rintro ⟨size, placed⟩
      obtain ⟨squares, mem, perm⟩ := (placements s.queens).2 placed
      exact ⟨squares, mem, of_perm perm size⟩
  · intro o selected patient
    obtain ⟨messages, solved⟩ := solved o selected patient
    have decoded := solveEncoded_ok solved fun squares mem =>
      ofNames_eq short (placement squares mem).onBoard
    simp only [solve, search_eq positive, decoded]
    rfl

/-- The encoding is faithful: a board with an open square, whose given queens stand on it, has
exactly its completions as solutions, each of them once. -/
theorem solve_finds_completions (positive : 1 ≤ b.size)
    (short : b.size.toNat < Text.Integer.writeBound) (given : ∀ q ∈ b.queens, q.OnBoard b.size)
    (any : b.Open) (unlimited : o.limit = none) (patient : o.Patient) :
    ∃ boards, b.solve o = .ok boards ∧ boards.Nodup ∧ ∀ s, s ∈ boards ↔ s.Completes b := by
  obtain ⟨boards, once, completes, solved⟩ := solve_ok positive short given any o.selector
  refine ⟨boards, ?_, once, completes⟩
  rw [solved o rfl patient, Options.cut_of_unlimited unlimited]

/-- Two given queens that attack each other leave open squares, but no completion. -/
theorem solve_finds_completions_sample : ∃ boards,
    (of 5 [⟨1, 1⟩, ⟨2, 2⟩]).solve { selector := .smaller } = .ok boards ∧ boards.Nodup ∧
      ∀ s, s ∈ boards ↔ s.Completes (of 5 [⟨1, 1⟩, ⟨2, 2⟩]) := by
  have any : (of 5 [⟨1, 1⟩, ⟨2, 2⟩]).Open := ⟨⟨3, 4⟩, by decide, by decide⟩
  exact solve_finds_completions (o := { selector := .smaller }) (by decide) (by decide +kernel)
    (by decide) any rfl nofun

/-! ## Boards without an open square -/

/-- The queens of a completion stand on open squares. -/
theorem open_of_completes (positive : 1 ≤ b.size) (given : ∀ q ∈ b.queens, q.OnBoard b.size)
    (completes : s.Completes b) : b.Open := by
  obtain ⟨size, placement⟩ := (completes_iff_placement positive).1 completes
  have any : s.queens ≠ [] := by
    intro none
    have full : (s.queens.length : Int) = b.size := placement.full
    rw [none, List.length_nil] at full
    omega
  obtain ⟨q, hq⟩ := List.exists_mem_of_ne_nil _ any
  exact (open_iff positive).2 (List.ne_nil_of_mem (placement.mem_openSquares given hq))

/-- A search of a board without an open square fails, whatever its options. -/
theorem solve_of_closed (positive : 1 ≤ b.size) (closed : ¬b.Open) (o : Options) :
    b.solve o = .error .tooFewLines := by
  rw [open_iff positive, not_not] at closed
  have refused := Encoding.ofConstraintLines_of_none closed
  simp only [solve, search_eq positive, solveEncoded, solveLines, refused, bind, Except.bind]
  rfl

/-- No board completes the board. -/
def Unsolvable (b : Board) : Prop := ∀ s : Board, ¬s.Completes b

/-- An unsolvable board with an open square has the empty list of solutions, up to any limit. -/
theorem solve_of_unsolvable (positive : 1 ≤ b.size) (short : b.size.toNat < Text.Integer.writeBound)
    (given : ∀ q ∈ b.queens, q.OnBoard b.size) (any : b.Open) (patient : o.Patient) :
    ∃ boards, b.solve o = .ok boards ∧ (b.Unsolvable → boards = []) := by
  obtain ⟨boards, -, completes, solved⟩ := solve_ok positive short given any o.selector
  refine ⟨o.cut boards, solved o rfl patient, fun unsolvable => ?_⟩
  have none : boards = [] :=
    List.eq_nil_iff_forall_not_mem.2 fun s mem => unsolvable s ((completes s).1 mem)
  rw [none, Options.cut_nil]

/-- Solving a board of queens answers with a list, and with the empty one when there is no
completion, as long as some square is open; then the questions are answered too. A board without an
open square has no completion, and all three fail on it. -/
theorem solve_answers_iff_open (positive : 1 ≤ b.size)
    (short : b.size.toNat < Text.Integer.writeBound) (given : ∀ q ∈ b.queens, q.OnBoard b.size)
    (patient : o.Patient) :
    (b.Open →
      (∃ boards, b.solve o = .ok boards ∧ (b.Unsolvable → boards = [])) ∧
      (∃ answer, hasSolutions (b.solve ·) = .ok answer ∧ (b.Unsolvable → answer = false)) ∧
      ∃ answer, hasUniqueSolution (b.solve ·) = .ok answer ∧ (b.Unsolvable → answer = false)) ∧
    (¬b.Open →
      b.Unsolvable ∧ b.solve o = .error .tooFewLines ∧
      hasSolutions (b.solve ·) = .error .tooFewLines ∧
      hasUniqueSolution (b.solve ·) = .error .tooFewLines) := by
  constructor
  · intro any
    have solves : ∀ {o : Options}, o.Patient →
        ∃ boards, b.solve o = .ok boards ∧ (b.Unsolvable → boards = []) :=
      solve_of_unsolvable positive short given any
    obtain ⟨one, foundOne, noneOne⟩ := solves (o := .withLimit .one) nofun
    obtain ⟨two, foundTwo, noneTwo⟩ := solves (o := .withLimit .two) nofun
    refine ⟨solves patient, ⟨!one.isEmpty, ?_, ?_⟩, two.length == 1, ?_, ?_⟩
    · simp only [hasSolutions, foundOne, Except.map]
    · exact fun unsolvable => by rw [noneOne unsolvable]; rfl
    · simp only [hasUniqueSolution, foundTwo, Except.map]
    · exact fun unsolvable => by rw [noneTwo unsolvable]; rfl
  · intro closed
    have fails := solve_of_closed positive closed
    refine ⟨fun s completes => closed (open_of_completes positive given completes), fails o, ?_, ?_⟩
    · simp only [hasSolutions, fails, Except.map]
    · simp only [hasUniqueSolution, fails, Except.map]

/-- Two queens that attack each other leave a square open on this board, so a search answers. -/
theorem solve_answers_sample : ∃ boards,
    (of 5 [⟨1, 1⟩, ⟨2, 2⟩]).solve { limit := some .two } = .ok boards ∧
      ((of 5 [⟨1, 1⟩, ⟨2, 2⟩]).Unsolvable → boards = []) := by
  have any : (of 5 [⟨1, 1⟩, ⟨2, 2⟩]).Open := ⟨⟨3, 4⟩, by decide, by decide⟩
  exact ((solve_answers_iff_open (o := { limit := some .two }) (by decide) (by decide +kernel)
    (by decide) nofun).1 any).1

/-- Two queens may attack all squares, each other's among them. Nothing completes the board, but a
search fails, and so do the questions. -/
theorem solve_fails_on_attacked_board :
    (of 2 [⟨1, 1⟩, ⟨2, 2⟩]).Unsolvable ∧
      (of 2 [⟨1, 1⟩, ⟨2, 2⟩]).solve = .error .tooFewLines ∧
      hasSolutions ((of 2 [⟨1, 1⟩, ⟨2, 2⟩]).solve ·) = .error .tooFewLines ∧
      hasUniqueSolution ((of 2 [⟨1, 1⟩, ⟨2, 2⟩]).solve ·) = .error .tooFewLines := by
  have closed : ¬(of 2 [⟨1, 1⟩, ⟨2, 2⟩]).Open := by
    rintro ⟨s, onBoard, alone⟩
    have attacked : ∀ s ∈ allSquares 2, ∃ q ∈ (of 2 [⟨1, 1⟩, ⟨2, 2⟩]).queens, s ∈ attacked 2 q := by
      decide
    obtain ⟨q, hq, mem⟩ := attacked s (mem_allSquares.2 onBoard)
    exact alone q hq mem
  have fails := solve_of_closed (by decide) closed
  refine ⟨fun s completes => ?_, fails _, ?_, ?_⟩
  · exact closed (open_of_completes (by decide) (by decide) completes)
  · simp only [hasSolutions, fails, Except.map]
  · simp only [hasUniqueSolution, fails, Except.map]

end Board

end DancingLinks.Queens
