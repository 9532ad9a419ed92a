import DancingLinks.Proofs.Sudoku.Shown
import DancingLinks.Proofs.Sudoku.Solutions

/-!
# Boards that are read from lines

The cells that are read from a grid lie on the board, in order, and their values are symbols that
the grid shows (`mem_cellsOnLines`, `pairwise_cellsOnLines`). The alphabet that is inferred from the
grid has these symbols and no other one twice, and is no larger than the board (`of_inferAlphabet`).
So a board that was read is sound (`sound_of_parse`).
-/

namespace DancingLinks.Sudoku

variable {c : Cell} {cells : List Cell} {lines alphabet : List String} {cs : List Char}
  {row column size : Int} {n first : Nat} {x : Char}

namespace Board

variable {b : Board}

/-! ## Cells -/

/-- The cells on a line are where its symbols are. -/
theorem mem_cellsOnLine : c ∈ cellsOnLine row column cs ↔
    ∃ (j : Nat) (x : Char), cs[j]? = some x ∧ x ≠ emptySymbol ∧
      c = ⟨⟨row, column + j⟩, String.singleton x⟩ := by
  induction cs generalizing column with
  | nil => simp [cellsOnLine]
  | cons y cs ih =>
    have later : c ∈ cellsOnLine row (column + 1) cs ↔
        ∃ (j : Nat) (x : Char), (y :: cs)[j + 1]? = some x ∧ x ≠ emptySymbol ∧
          c = ⟨⟨row, column + (j + 1 : Nat)⟩, String.singleton x⟩ := by
      simp only [ih, List.getElem?_cons_succ, Int.natCast_add, Int.natCast_one, Int.add_assoc,
        Int.add_comm 1]
    have split : c ∈ cellsOnLine row column (y :: cs) ↔
        (y ≠ emptySymbol ∧ c = ⟨⟨row, column⟩, String.singleton y⟩) ∨
          c ∈ cellsOnLine row (column + 1) cs := by
      by_cases empty : y = emptySymbol
      · simp [cellsOnLine, empty]
      · simp [cellsOnLine, empty]
    rw [split, later]
    constructor
    · rintro (⟨solid, rfl⟩ | ⟨j, found⟩)
      · exact ⟨0, y, rfl, solid, by simp⟩
      · exact ⟨j + 1, found⟩
    · rintro ⟨j, x, there, solid, rfl⟩
      cases j with
      | zero =>
        obtain rfl : y = x := Option.some.inj there
        exact .inl ⟨solid, by simp⟩
      | succ j => exact .inr ⟨j, x, there, solid, rfl⟩

/-- The cells on a line are in order. -/
theorem pairwise_cellsOnLine (row column : Int) (cs : List Char) :
    (cellsOnLine row column cs).Pairwise fun c d => c.square < d.square := by
  induction cs generalizing column with
  | nil => exact .nil
  | cons x cs ih =>
    unfold cellsOnLine
    dsimp only
    split
    · exact ih (column + 1)
    · refine .cons (fun c mem => .inr ⟨?_, ?_⟩) (ih (column + 1))
      · obtain ⟨j, y, -, -, rfl⟩ := mem_cellsOnLine.1 mem
        rfl
      · obtain ⟨j, y, -, -, rfl⟩ := mem_cellsOnLine.1 mem
        show column < column + 1 + j
        omega

/-- A line of another length is refused, -/
theorem cellsOnLines_of_ragged {line : String} (ragged : line.length ≠ n) :
    cellsOnLines n first (line :: lines) = .error (.raggedRow first n line.length) :=
  if_pos ragged

/-- and one of the given length is read. -/
theorem cellsOnLines_of_wide {line : String} (wide : line.length = n) :
    cellsOnLines n first (line :: lines) =
      (cellsOnLines n (first + 1) lines).map (cellsOnLine first 1 line.toList ++ ·) := by
  rw [cellsOnLines, if_neg (not_not_intro wide)]
  cases cellsOnLines n (first + 1) lines <;> rfl

/-- A line that is read, and the lines after it. -/
theorem of_cellsOnLines_cons {line : String}
    (read : cellsOnLines n first (line :: lines) = .ok cells) :
    line.length = n ∧ ∃ rest, cellsOnLines n (first + 1) lines = .ok rest ∧
      cells = cellsOnLine first 1 line.toList ++ rest := by
  by_cases wide : line.length = n
  · rw [cellsOnLines_of_wide wide] at read
    obtain ⟨rest, later, rfl⟩ := ok_of_map read
    exact ⟨wide, rest, later, rfl⟩
  · rw [cellsOnLines_of_ragged wide] at read
    cases read

/-- Lines are read when they have the given length. -/
theorem exists_cellsOnLines :
    (∃ cells, cellsOnLines n first lines = .ok cells) ↔ ∀ line ∈ lines, line.length = n := by
  induction lines generalizing first with
  | nil => exact ⟨fun _ => nofun, fun _ => ⟨[], rfl⟩⟩
  | cons line lines ih =>
    rw [List.forall_mem_cons]
    constructor
    · rintro ⟨cells, read⟩
      obtain ⟨wide, rest, later, -⟩ := of_cellsOnLines_cons read
      exact ⟨wide, ih.1 ⟨rest, later⟩⟩
    · rintro ⟨wide, others⟩
      obtain ⟨rest, later⟩ := ih.2 others
      exact ⟨_, by rw [cellsOnLines_of_wide wide, later]; rfl⟩

/-- The cells on lines are where their symbols are. -/
theorem mem_cellsOnLines (read : cellsOnLines n first lines = .ok cells) :
    c ∈ cells ↔ ∃ (i j : Nat) (x : Char),
      (lines[i]?.bind fun line => line.toList[j]?) = some x ∧ x ≠ emptySymbol ∧
        c = ⟨⟨first + i, 1 + j⟩, String.singleton x⟩ := by
  induction lines generalizing first cells with
  | nil =>
    cases read
    simp
  | cons line lines ih =>
    obtain ⟨-, rest, later, rfl⟩ := of_cellsOnLines_cons read
    rw [List.mem_append, mem_cellsOnLine, ih later]
    constructor
    · rintro (⟨j, x, there, solid, rfl⟩ | ⟨i, j, x, there, solid, rfl⟩)
      · exact ⟨0, j, x, there, solid, by simp⟩
      · refine ⟨i + 1, j, x, there, solid, ?_⟩
        rw [Int.natCast_add, Int.natCast_add, Int.add_assoc, Int.add_comm (1 : Nat)]
    · rintro ⟨i, j, x, there, solid, rfl⟩
      cases i with
      | zero => exact .inl ⟨j, x, there, solid, by simp⟩
      | succ i =>
        refine .inr ⟨i, j, x, there, solid, ?_⟩
        rw [Int.natCast_add, Int.natCast_add, Int.add_assoc, Int.add_comm (1 : Nat)]

/-- The cells on the lines of a grid are the squares that it does not leave empty. -/
theorem mem_cells_iff (read : cellsOnLines n 1 lines = .ok cells) :
    c ∈ cells ↔
      ∃ x, ShowsAt lines c.square x ∧ x ≠ emptySymbol ∧ c.value = String.singleton x := by
  obtain ⟨square, value⟩ := c
  rw [mem_cellsOnLines read]
  constructor
  · rintro ⟨i, j, x, there, solid, same⟩
    rw [Cell.mk.injEq] at same
    obtain ⟨rfl, rfl⟩ := same
    refine ⟨x, ⟨i, j, ?_, there⟩, solid, rfl⟩
    rw [Square.mk.injEq]
    omega
  · rintro ⟨x, ⟨i, j, rfl, there⟩, solid, rfl⟩
    refine ⟨i, j, x, there, solid, ?_⟩
    rw [Cell.mk.injEq, Square.mk.injEq]
    exact ⟨⟨by omega, by omega⟩, rfl⟩

/-- The cells on lines are in order. -/
theorem pairwise_cellsOnLines (read : cellsOnLines n first lines = .ok cells) :
    cells.Pairwise fun c d => c.square < d.square := by
  induction lines generalizing first cells with
  | nil =>
    cases read
    exact .nil
  | cons line lines ih =>
    obtain ⟨-, rest, later, rfl⟩ := of_cellsOnLines_cons read
    refine List.pairwise_append.2 ⟨pairwise_cellsOnLine .., ih later, fun c hc d hd => .inl ?_⟩
    obtain ⟨j, x, -, -, rfl⟩ := mem_cellsOnLine.1 hc
    obtain ⟨i', j', y, -, -, rfl⟩ := (mem_cellsOnLines later).1 hd
    dsimp only
    omega

theorem nodup_squares_cellsOnLines (read : cellsOnLines n first lines = .ok cells) :
    (cells.map Cell.square).Nodup :=
  Square.nodup_of_increasing (List.pairwise_map.2 (pairwise_cellsOnLines read))

end Board

/-! ## Alphabets -/

/-- Characters are ordered. -/
theorem char_connected (x y : Char) (below : ¬x < y) (above : ¬y < x) : x = y :=
  Char.le_antisymm (Char.not_lt.1 above) (Char.not_lt.1 below)

theorem nodup_defaultSymbols : defaultSymbols.Nodup := by decide +kernel

/-- The symbols that a grid shows. -/
theorem mem_shownSymbols :
    x ∈ shownSymbols lines ↔ (∃ line ∈ lines, x ∈ line.toList) ∧ x ≠ emptySymbol := by
  rw [shownSymbols, mem_distinctSorted char_connected, List.mem_filter, List.mem_flatMap,
    decide_eq_true_eq]

theorem nodup_shownSymbols (lines : List String) : (shownSymbols lines).Nodup := by
  refine (pairwise_distinctSorted (fun _ _ _ => Char.lt_trans) char_connected _).imp ?_
  exact fun less same => Char.lt_irrefl _ (same ▸ less)

/-- An inferred alphabet holds the symbols that the grid shows, none of them twice, and is no larger
than the board. -/
theorem of_inferAlphabet (inferred : inferAlphabet size lines = .ok alphabet) :
    alphabet.Nodup ∧ (alphabet.length : Int) ≤ size ∧
      ∀ x ∈ shownSymbols lines, String.singleton x ∈ alphabet := by
  unfold inferAlphabet at inferred
  dsimp only at inferred
  split at inferred
  · cases inferred
  · next room =>
    cases inferred
    refine ⟨?_, ?_, fun x mem => List.mem_map_of_mem (List.mem_append_left _ mem)⟩
    · refine List.Nodup.map (fun x y => singleton_inj) ?_
      refine List.nodup_append.2 ⟨nodup_shownSymbols lines, ?_, fun x hx y hy => ?_⟩
      · exact (nodup_defaultSymbols.filter _).sublist (List.take_sublist ..)
      · rintro rfl
        have missing := List.mem_of_mem_take hy
        exact of_decide_eq_true (List.mem_filter.1 missing).2 hx
    · rw [List.length_map, List.length_append, List.length_take]
      omega

/-! ## Boards -/

/-- The alphabet of a board that was made fits it. -/
theorem Board.checkAlphabet_of_of {b : Board} (made : Board.of size cells alphabet = .ok b) :
    checkAlphabet alphabet size = .ok () := by
  unfold Board.of at made
  dsimp only at made
  split at made
  · cases made
  · obtain ⟨⟨⟩, accepted, -⟩ := ok_of_bind made
    exact accepted

/-- The cells and the alphabet of a grid make a sound board. -/
theorem Board.sound_of_rows {b : Board} {rows : List String}
    (read : cellsOnLines rows.length 1 rows = .ok cells)
    (inferred : inferAlphabet rows.length rows = .ok alphabet)
    (made : Board.of rows.length cells alphabet = .ok b) :
    b.encoding.Sound ∧ sorted b.alphabet = b.alphabet := by
  obtain ⟨different, small, shown⟩ := of_inferAlphabet inferred
  obtain ⟨large, whole, -⟩ := Board.eq_of_of made
  have all : alphabet.take (Int.toNat rows.length) = alphabet :=
    List.take_of_length_le (by omega)
  have distinct : (cells.map Cell.square).Nodup := nodup_squares_cellsOnLines read
  have given : ∀ c ∈ cells, c.square.OnBoard rows.length ∧
      c.value ∈ alphabet.take (Int.toNat rows.length) := by
    intro c mem
    obtain ⟨x, there, solid, value⟩ := (mem_cells_iff read).1 mem
    refine ⟨there.onBoard (exists_cellsOnLines.1 ⟨cells, read⟩), ?_⟩
    rw [all, value]
    exact shown x (mem_shownSymbols.2 ⟨there.exists_line, solid⟩)
  obtain ⟨b', made', sound⟩ := of_sound (whole ▸ large) (Board.checkAlphabet_of_of made)
    (all.symm ▸ different) distinct given
  rw [made] at made'
  cases made'
  exact sound

/-- A board that was read from lines is sound, and its alphabet is in order. -/
theorem Board.sound_of_parse {b : Board} (parsed : Board.parse lines = .ok b) :
    b.encoding.Sound ∧ sorted b.alphabet = b.alphabet := by
  obtain ⟨cells, read, parsed⟩ := ok_of_bind parsed
  obtain ⟨alphabet, inferred, made⟩ := ok_of_bind parsed
  exact sound_of_rows read inferred made

end DancingLinks.Sudoku
