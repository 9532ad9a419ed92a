import DancingLinks.Proofs.Sudoku.Filling
import DancingLinks.Sudoku.Rules

/-!
# The solutions of a sudoku

Solving a sound board finds exactly the boards that complete it, each of them once, whatever column
the search branches on (`Board.solve_ok`). A board whose alphabet has enough different
symbols, and whose given cells lie on different squares of the board, is sound
(`Board.of_sound`), so its solutions are exactly its completions (`Board.solve_completions`).
-/

namespace DancingLinks.Sudoku

variable {n : Int} {alphabet : List String} {cells : List Cell} {b s : Board} {o : Options}

/-! ## Sound boards -/

theorem checkDistinct_of_nodup (distinct : (cells.map Cell.square).Nodup) :
    checkDistinct cells = .ok () := by
  rw [checkDistinct, firstRepeated_eq_none_iff.2 distinct]

/-- A text that is not greater than another is not greater than those above it. -/
theorem texts_trans {x y z : String} (xy : ¬y < x) (yz : ¬z < y) : ¬z < x :=
  String.not_lt.2 (String.le_trans (String.not_lt.1 xy) (String.not_lt.1 yz))

/-- Texts that are sorted do not decrease, -/
theorem pairwise_sorted_texts (xs : List String) : (sorted xs).Pairwise fun x y => ¬y < x :=
  pairwise_sorted (fun _ _ => String.lt_asymm) (fun _ _ _ => texts_trans) xs

/-- so they stay as they are. -/
theorem sorted_sorted (xs : List String) : sorted (sorted xs) = sorted xs :=
  sorted_eq_self (pairwise_sorted_texts xs)

namespace Board

/-- The board that is made of cells on different squares. -/
theorem of_eq (size : 1 ≤ n) (accepted : checkAlphabet alphabet n = .ok ())
    (distinct : (cells.map Cell.square).Nodup) :
    of n cells alphabet = .ok ⟨n, sorted cells, sorted (alphabet.take n.toNat),
      pairwise_square_sorted distinct⟩ := by
  have large : ¬n < 1 := by omega
  unfold of
  simp only [if_neg large, accepted, bind, Except.bind, pure, Except.pure]
  split
  · next square repeated =>
    rw [firstRepeated_eq_none_iff.2 distinct] at repeated
    cases repeated
  · rfl

/-- A board that is made has squares, and its cells are the given ones, in order. -/
theorem eq_of_of (made : of n cells alphabet = .ok b) :
    1 ≤ b.size ∧ b.size = n ∧ b.cells = sorted cells := by
  unfold of at made
  dsimp only at made
  split at made
  · cases made
  · next large =>
    obtain ⟨-, -, made⟩ := ok_of_bind made
    split at made
    · cases made
    · cases made
      exact ⟨Int.not_lt.1 large, rfl, rfl⟩

/-- The encoding of a board that is made of good parts is sound. -/
theorem encoding_sound (size : 1 ≤ b.size) (length : b.alphabet.length = b.size.toNat)
    (different : b.alphabet.Nodup) (symbols : ∀ v ∈ b.alphabet, isSymbol v = true)
    (given : ∀ c ∈ b.cells, c.square.OnBoard b.size ∧ c.value ∈ b.alphabet) :
    b.encoding.Sound where
  size := size
  length := length
  different := different
  symbols := symbols
  squares := b.nodup_squares
  given := given
  boxes := isqrt_mul_self_iff (by omega)

/-- The alphabet of a sound board is accepted. -/
theorem checkAlphabet_ok (sound : b.encoding.Sound) : checkAlphabet b.alphabet b.size = .ok () := by
  have size : 1 ≤ b.size := sound.size
  have length : b.alphabet.length = b.size.toNat := sound.length
  exact checkAlphabet_eq_ok_iff.2 ⟨by omega, sound.symbols⟩

/-- A sound board can be encoded. -/
theorem encoding_of (sound : b.encoding.Sound) :
    Encoding.of b.size b.cells b.alphabet = .ok b.encoding := by
  have size : 1 ≤ b.size := sound.size
  have accepted := checkAlphabet_ok sound
  have distinct : checkDistinct b.cells = .ok () := checkDistinct_of_nodup sound.squares
  have root : isPerfectSquare b.size = .ok b.encoding.boxes := if_neg (by omega)
  simp only [Encoding.of, accepted, distinct, root, bind, Except.bind]
  rfl

/-! ## Solutions -/

/-- The board with other cells, which lie on different squares. -/
def holding (b : Board) (cells : List Cell) : Board :=
  if distinct : (cells.map Cell.square).Nodup then
    ⟨b.size, sorted cells, b.alphabet, pairwise_square_sorted distinct⟩
  else b

theorem holding_eq (distinct : (cells.map Cell.square).Nodup) :
    b.holding cells = ⟨b.size, sorted cells, b.alphabet, pairwise_square_sorted distinct⟩ :=
  dif_pos distinct

/-- A board is made of its cells, in whichever order. -/
theorem holding_of_perm (perm : cells.Perm s.cells) (size : s.size = b.size)
    (alphabet : s.alphabet = b.alphabet) : b.holding cells = s := by
  have distinct : (cells.map Cell.square).Nodup := (perm.map _).nodup_iff.2 s.nodup_squares
  have order : sorted cells = s.cells :=
    eq_of_perm (fun c d => Square.lt_asymm c.square d.square) (pairwise_square_sorted distinct)
      s.ordered ((sorted_perm cells).trans perm)
  rw [holding_eq distinct]
  cases s
  simp only [mk.injEq]
  exact ⟨size.symm, order, alphabet.symm⟩

/-- Names are decoded when the cells are read back from them. -/
theorem ofNames_of_read (read : ∀ c ∈ cells, readCellName (cellName c) = .ok c) :
    ofNames n alphabet (cells.map cellName) = of n cells alphabet := by
  have cellsRead : (cells.map cellName).mapM readCellName = .ok cells := by
    rw [List.mapM_map]
    exact (mapM_ok read).trans (congrArg _ (List.map_id cells))
  simp only [ofNames, cellsRead, bind, Except.bind]

/-- The names of the cells of a filling are decoded. -/
theorem ofNames_eq (sound : b.encoding.Sound) (inOrder : sorted b.alphabet = b.alphabet)
    (filling : b.encoding.Filling cells) :
    ofNames b.size b.alphabet (cells.map cellName) = .ok (b.holding cells) := by
  have all : b.alphabet.take b.size.toNat = b.alphabet :=
    List.take_of_length_le (Nat.le_of_eq sound.length)
  have size : 1 ≤ b.size := sound.size
  have distinct := filling.nodup_squares
  have made := of_eq size (checkAlphabet_ok sound) distinct
  simp only [all, inOrder] at made
  rw [holding_eq distinct, ← made]
  exact ofNames_of_read fun c hc => readCellName_cellName (sound.proper (filling.possible c hc))

/-- Solving a sound board finds the boards that complete it, each of them once, for every selector;
a limit cuts them off. -/
theorem solve_ok (sound : b.encoding.Sound) (inOrder : sorted b.alphabet = b.alphabet)
    (selector : Selector) :
    ∃ boards : List Board, boards.Nodup ∧ (∀ s, s ∈ boards ↔ s.Completes b) ∧
      ∀ o : Options, o.selector = selector → o.Patient → b.solve o = .ok (o.cut boards) := by
  obtain ⟨lines, m, choices, written, made, built, encodes⟩ :=
    Encoding.ofConstraintLines_ok sound
  obtain ⟨found, different, fits, solved⟩ := solveLines_fits made built encodes selector
  have fillings : ∀ cells, (∃ cells' ∈ found, cells'.Perm cells) ↔ b.encoding.Filling cells :=
    fun cells => (fits cells).trans (Encoding.fits_iff_filling sound)
  have filling : ∀ cells ∈ found, b.encoding.Filling cells := fun cells mem =>
    (fillings cells).1 ⟨cells, mem, .refl cells⟩
  have cells_perm : ∀ cells ∈ found, (b.holding cells).cells.Perm cells := fun cells mem => by
    rw [holding_eq (filling cells mem).nodup_squares]
    exact sorted_perm cells
  refine ⟨found.map b.holding, ?_, fun s => ?_, ?_⟩
  · rw [List.Nodup, List.pairwise_map]
    refine different.imp_of_mem fun {cells cells'} hc hc' differ same => differ ?_
    exact (cells_perm cells hc).symm.trans (same ▸ cells_perm cells' hc')
  · rw [completes_iff_filling sound, List.mem_map]
    constructor
    · rintro ⟨cells, mem, rfl⟩
      have perm := cells_perm cells mem
      have holding := holding_eq (b := b) (filling cells mem).nodup_squares
      exact ⟨by rw [holding], by rw [holding], (fillings _).1 ⟨cells, mem, perm.symm⟩⟩
    · rintro ⟨size, alphabet, full⟩
      obtain ⟨cells, mem, perm⟩ := (fillings s.cells).2 full
      exact ⟨cells, mem, holding_of_perm perm size alphabet⟩
  · intro o selected patient
    obtain ⟨messages, solved⟩ := solved o selected patient
    have decoded := solveEncoded_ok solved fun cells mem =>
      ofNames_eq sound inOrder (filling cells mem)
    simp only [solve, search, encoding_of sound, written, bind, Except.bind, decoded]
    rfl

/-- A board that is made of different symbols, and of cells on different squares with such symbols,
is sound. -/
theorem of_sound (size : 1 ≤ n) (accepted : checkAlphabet alphabet n = .ok ())
    (different : (alphabet.take n.toNat).Nodup) (distinct : (cells.map Cell.square).Nodup)
    (given : ∀ c ∈ cells, c.square.OnBoard n ∧ c.value ∈ alphabet.take n.toNat) :
    ∃ b : Board, of n cells alphabet = .ok b ∧ b.encoding.Sound ∧
      sorted b.alphabet = b.alphabet := by
  obtain ⟨large, symbols⟩ := checkAlphabet_eq_ok_iff.1 accepted
  refine ⟨_, of_eq size accepted distinct, encoding_sound size ?_ ?_ ?_ ?_, sorted_sorted _⟩
  · simp only [length_sorted, List.length_take]
    omega
  · exact (sorted_perm _).nodup_iff.2 different
  · intro v hv
    exact symbols v (List.mem_of_mem_take (mem_sorted.1 hv))
  · intro c hc
    obtain ⟨onBoard, value⟩ := given c (mem_sorted.1 hc)
    exact ⟨onBoard, mem_sorted.2 value⟩

/-- The encoding is faithful: a board that is made of different symbols, and of given cells on
different squares with such symbols, has exactly its completions as solutions, each of them once. -/
theorem solve_completions (size : 1 ≤ n) (accepted : checkAlphabet alphabet n = .ok ())
    (different : (alphabet.take n.toNat).Nodup) (distinct : (cells.map Cell.square).Nodup)
    (given : ∀ c ∈ cells, c.square.OnBoard n ∧ c.value ∈ alphabet.take n.toNat)
    (unlimited : o.limit = none) (patient : o.Patient) :
    ∃ b boards, of n cells alphabet = .ok b ∧ b.solve o = .ok boards ∧ boards.Nodup ∧
      ∀ s, s ∈ boards ↔ s.Completes b := by
  obtain ⟨b, made, sound, inOrder⟩ := of_sound size accepted different distinct given
  obtain ⟨boards, once, completes, solved⟩ := solve_ok sound inOrder o.selector
  refine ⟨b, boards, made, ?_, once, completes⟩
  rw [solved o rfl patient, Options.cut_of_unlimited unlimited]

/-- A board with boxes, two given cells, and a symbol to spare. -/
theorem solve_completions_sample : ∃ b boards,
    of 4 [⟨⟨1, 1⟩, "b"⟩, ⟨⟨2, 3⟩, "b"⟩] ["d", "b", "a", "c", "e"] = .ok b ∧
      b.solve {} = .ok boards ∧ boards.Nodup ∧ ∀ s, s ∈ boards ↔ s.Completes b :=
  solve_completions (o := {}) (by decide) rfl (by decide) (by decide) (by decide) rfl nofun

end Board

end DancingLinks.Sudoku
