import DancingLinks.Proofs.Search.Endings
import DancingLinks.Proofs.Sudoku.Accepted
import DancingLinks.Proofs.Sudoku.Solutions

/-!
# Covers of a sudoku

Whatever values are given, a cover of the matrix of a board meets every demand once
(`Encoding.namesMeetsAll`), so it fills every square with a possible cell (`Encoding.namesCovers`). On
a board whose numbers can be read every cover is decoded; on a larger one the cell in its last row is not,
so no cover is. Hence the searches of a board are uniform (`Board.uniform`).

A given square has only its own candidate, which is read without the blanks around its value. So that
is what every solution holds there (`Board.trimmed_mem_of_solve`), and it is the given cell only if there
are no such blanks (`Board.mem_cells_of_solve`).
-/

namespace DancingLinks.Sudoku

variable {b : Board} {cells : List Cell} {c g : Cell} {o : Options}

namespace Encoding

variable {e : Encoding} {lines : List String}

/-! ## Covers -/

/-- Possible cells that fill the squares of the board, among them the given ones without the blanks
around their values. -/
structure Fills (e : Encoding) (cells : List Cell) : Prop where
  possible : ∀ c ∈ cells, e.Possible c
  squares : (cells.map Cell.square).Perm (allSquares e.size)
  given : ∀ g ∈ e.given, g.trimmed ∈ cells

/-- On the square of a given cell there is no other candidate. -/
theorem eq_of_mem_candidates (checked : e.Checked) (mem : c ∈ e.candidates) (hg : g ∈ e.given)
    (same : c.square = g.square) : c = g := by
  rcases List.mem_append.1 (mem_sorted.1 mem) with given | free
  · exact List.inj_on_of_nodup_map checked.squares given hg same
  · obtain ⟨s, hs, mem⟩ := List.mem_flatMap.1 free
    obtain ⟨v, -, rfl⟩ := List.mem_map.1 mem
    have taken : s ∈ e.given.map Cell.square := List.mem_map.2 ⟨g, hg, same.symm⟩
    exact absurd taken (of_decide_eq_true (List.mem_filter.1 hs).2)

/-- They meet every demand of the board once. -/
structure MeetsAll (e : Encoding) (cells : List Cell) : Prop extends Fills e cells where
  once : ∀ d ∈ e.allDemands, cells.countP (e.Meets · d) = 1

/-- The covers of the matrix of a board are named after cells that meet every demand once, -/
theorem namesMeetsAll (checked : e.Checked) (written : e.lines = .ok lines) :
    NamesCovers lines cellName e.MeetsAll := by
  intro m made
  obtain ⟨possible, choices, built, contents⟩ := of_ofConstraintLines checked written made
  refine ⟨_, built, fun rows cover => ?_⟩
  obtain ⟨cells, available, names, used⟩ := cover.exists_candidates contents
  have trimmed : ∀ c ∈ cells.map Cell.trimmed, e.Possible c := by
    intro c mem
    obtain ⟨c, hc, rfl⟩ := List.mem_map.1 mem
    exact possible c (available c hc)
  have once : ∀ d ∈ e.allDemands, (cells.map Cell.trimmed).countP (e.Meets · d) = 1 := by
    intro d mem
    rw [← countP_uses, List.countP_map]
    exact used _ (List.mem_map_of_mem mem)
  have filled := fun (s : Square) (onBoard : s.OnBoard e.size) =>
    once (.filled s) (filled_mem_allDemands.2 onBoard)
  have squares := perm_allSquares trimmed filled
  refine ⟨cells.map Cell.trimmed, ⟨⟨trimmed, squares, fun g hg => ?_⟩, once⟩, ?_⟩
  · have onBoard := (possible g (mem_sorted.2 (List.mem_append_left _ hg))).1
    obtain ⟨c', mem, meets⟩ := List.countP_pos_iff.1 (filled g.square onBoard ▸ Nat.one_pos)
    obtain ⟨c, hc, rfl⟩ := List.mem_map.1 mem
    have same : e.Meets c.trimmed (.filled g.square) := of_decide_eq_true meets
    exact eq_of_mem_candidates checked (available c hc) hg same ▸ mem
  · rw [names, List.map_map]
    rfl

/-- so they fill the board. -/
theorem namesCovers (checked : e.Checked) (written : e.lines = .ok lines) :
    NamesCovers lines cellName e.Fills :=
  (namesMeetsAll checked written).mono fun _ => MeetsAll.toFills

end Encoding

namespace Board

variable {e : Encoding}

/-! ## Decoding covers -/

/-- Cells that fill a board are decoded when the size can be read, -/
theorem ofNames_of_short (checked : e.Checked) (fills : e.Fills cells)
    (short : e.size.toNat < Text.Integer.writeBound) :
    ∃ s : Board, ofNames e.size e.alphabet (cells.map cellName) = .ok s ∧ s.cells.Perm cells ∧
      s.size = e.size ∧ s.alphabet = sorted (e.alphabet.take e.size.toNat) := by
  have symbols := (checkAlphabet_eq_ok_iff.1 checked.accepted).2
  have read : ∀ c ∈ cells, readCellName (cellName c) = .ok c := by
    intro c hc
    obtain ⟨⟨top, bottom, left, right⟩, value⟩ := fills.possible c hc
    exact readCellName_cellName ⟨by omega, by omega, by omega, by omega, symbols _ value⟩
  have distinct : (cells.map Cell.square).Nodup := fills.squares.nodup_iff.2 (nodup_allSquares e.size)
  rw [ofNames_of_read read, of_eq checked.size checked.accepted distinct]
  exact ⟨_, rfl, sorted_perm cells, rfl, rfl⟩

/-- and only then, since one of them is in the last row. -/
theorem ofNames_of_long (checked : e.Checked) (fills : e.Fills cells)
    (long : Text.Integer.writeBound ≤ e.size.toNat) :
    ∃ fault, ofNames e.size e.alphabet (cells.map cellName) = .error fault := by
  have size := checked.size
  have corner : (Square.mk e.size e.size).OnBoard e.size := ⟨size, Int.le_refl _, size, Int.le_refl _⟩
  obtain ⟨c, hc, last⟩ := List.mem_map.1 (fills.squares.mem_iff.2 (mem_allSquares.2 corner))
  have row : c.square.row = e.size := by rw [last]
  have column : c.square.column = e.size := by rw [last]
  have symbol := (checkAlphabet_eq_ok_iff.1 checked.accepted).2 _ (fills.possible c hc).2
  have fails := readCellName_of_long (c := c) (by omega) (by omega) symbol (by rwa [row])
  obtain ⟨fault, failed⟩ := exists_mapM_error (List.mem_map_of_mem hc) fails
  exact ⟨fault, by rw [ofNames, failed]; rfl⟩

/-! ## Searches -/

/-- A board that is encoded was checked. -/
theorem checked_of_encoding {e : Encoding} (size : 1 ≤ b.size)
    (encoded : Encoding.of b.size b.cells b.alphabet = .ok e) :
    e = b.encoding ∧ b.encoding.Checked := by
  obtain ⟨⟨⟩, accepted, encoded⟩ := ok_of_bind encoded
  obtain ⟨-, -, encoded⟩ := ok_of_bind encoded
  have root : isPerfectSquare b.size = .ok b.encoding.boxes := if_neg (by omega)
  rw [root] at encoded
  exact ⟨(Except.ok.inj encoded).symm, size, accepted, b.nodup_squares⟩

/-- A board is refused, or its lines are solved. -/
theorem solve_cases (size : 1 ≤ b.size) :
    (∃ fault, ∀ o, b.solve o = .error fault) ∨
      ∃ lines, b.encoding.Checked ∧ b.encoding.lines = .ok lines ∧
        ∀ o, b.solve o = (solveEncoded lines (ofNames b.size b.alphabet) o).map Report.solutions := by
  cases encoded : Encoding.of b.size b.cells b.alphabet with
  | error fault =>
    refine .inl ⟨fault, fun o => ?_⟩
    simp only [solve, search, encoded, bind, Except.bind]
    rfl
  | ok e =>
    obtain ⟨rfl, checked⟩ := checked_of_encoding size encoded
    cases written : b.encoding.lines with
    | error fault =>
      refine .inl ⟨fault, fun o => ?_⟩
      simp only [solve, search, encoded, written, bind, Except.bind]
      rfl
    | ok lines =>
      refine .inr ⟨lines, checked, rfl, fun o => ?_⟩
      simp only [solve, search, encoded, written, bind, Except.bind]

/-- The searches of a board differ in their limits and their order only. -/
theorem uniform (size : 1 ≤ b.size) : Uniform fun o => b.solve o := by
  rcases solve_cases size with ⟨fault, fails⟩ | ⟨lines, checked, written, solves⟩
  · exact uniform_of_error fails
  · simp only [solves]
    refine (Encoding.namesCovers checked written).uniform ?_
    rcases Nat.lt_or_ge b.size.toNat Text.Integer.writeBound with short | long
    · refine .inl fun cells fills => ?_
      obtain ⟨s, decoded, -⟩ := ofNames_of_short checked fills short
      exact ⟨s, decoded⟩
    · exact .inr fun cells fills => ofNames_of_long checked fills long

/-- What is decoded from cells that fill a board holds these cells. -/
theorem eq_of_ofNames {s : Board} (checked : e.Checked) (fills : e.Fills cells)
    (decoded : ofNames e.size e.alphabet (cells.map cellName) = .ok s) :
    s.cells.Perm cells ∧ s.size = e.size ∧ s.alphabet = sorted (e.alphabet.take e.size.toNat) := by
  rcases Nat.lt_or_ge e.size.toNat Text.Integer.writeBound with short | long
  · obtain ⟨s', decoded', parts⟩ := ofNames_of_short checked fills short
    cases decoded.symm.trans decoded'
    exact parts
  · obtain ⟨fault, failed⟩ := ofNames_of_long checked fills long
    cases decoded.symm.trans failed

/-- Every solution holds cells that meet every demand once. -/
theorem exists_cells_of_solve {boards : List Board} (size : 1 ≤ b.size)
    (solved : b.solve o = .ok boards) : b.encoding.Checked ∧ ∀ s ∈ boards, ∃ cells,
      b.encoding.MeetsAll cells ∧ s.cells.Perm cells ∧ s.size = b.size ∧
        s.alphabet = sorted (b.alphabet.take b.size.toNat) := by
  rcases solve_cases size with ⟨fault, fails⟩ | ⟨lines, checked, written, solves⟩
  · cases (fails o).symm.trans solved
  · obtain ⟨report, encoded, rfl⟩ := ok_of_map ((solves o).symm.trans solved)
    refine ⟨checked, fun s hs => ?_⟩
    obtain ⟨cells, meets, decoded⟩ :=
      (Encoding.namesMeetsAll checked written).exists_cells encoded s hs
    exact ⟨cells, meets, eq_of_ofNames checked meets.toFills decoded⟩

/-- Every solution holds the given cells without the blanks around their values. -/
theorem trimmed_mem_of_solve {boards : List Board} (size : 1 ≤ b.size)
    (solved : b.solve o = .ok boards) : ∀ s ∈ boards, ∀ g ∈ b.cells, g.trimmed ∈ s.cells := by
  intro s hs g hg
  obtain ⟨cells, meets, perm, -⟩ := (exists_cells_of_solve size solved).2 s hs
  exact perm.mem_iff.2 (meets.given g hg)

/-- So a given cell is part of a solution exactly when there are no blanks around its value. -/
theorem mem_cells_of_solve {boards : List Board} (size : 1 ≤ b.size)
    (solved : b.solve o = .ok boards) :
    ∀ s ∈ boards, ∀ g ∈ b.cells, (g ∈ s.cells ↔ g.trimmed = g) := by
  intro s hs g hg
  have kept := trimmed_mem_of_solve size solved s hs g hg
  constructor
  · exact fun mem => List.inj_on_of_nodup_map s.nodup_squares kept mem rfl
  · exact fun same => same ▸ kept

end Board

end DancingLinks.Sudoku
