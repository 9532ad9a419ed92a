import DancingLinks.Proofs.Sudoku.Lines

/-!
# Fillings of a sound board

A `Filling` of a sound board is a list of possible cells that meets every demand once and keeps the
given cells. The selections of candidates that fit the demands are the fillings
(`fits_iff_filling`), and so are the cells of the boards that complete the board
(`completes_iff_filling`).
-/

namespace DancingLinks.Sudoku

variable {b s : Board} {cells : List Cell} {alphabet : List String} {row : Int}

namespace Encoding

variable {e : Encoding}

/-! ## Fillings -/

/-- The cells are possible, meet every demand of the board once, and keep the given cells. -/
structure Filling (e : Encoding) (cells : List Cell) : Prop where
  possible : ∀ c ∈ cells, e.Possible c
  once : ∀ d, e.Poses d → cells.countP (e.Meets · d) = 1
  keeps : ∀ g ∈ e.given, g ∈ cells

/-- The cells on a square meet the demand to fill it. -/
theorem count_square (e : Encoding) (cells : List Cell) (square : Square) :
    (cells.map Cell.square).count square = cells.countP (e.Meets · (.filled square)) := by
  rw [List.count, List.countP_map]
  refine List.countP_congr fun c _ => ?_
  simp only [Function.comp_apply, beq_iff_eq, decide_eq_true_eq]
  rfl

/-- When every square is filled once, the squares of the cells are those of the board. -/
theorem perm_allSquares (possible : ∀ c ∈ cells, e.Possible c)
    (filled : ∀ square : Square, square.OnBoard e.size →
      cells.countP (e.Meets · (.filled square)) = 1) :
    (cells.map Cell.square).Perm (allSquares e.size) := by
  refine perm_of_count_eq_one (nodup_allSquares e.size) (fun square mem => ?_) fun square mem => ?_
  · obtain ⟨c, hc, rfl⟩ := List.mem_map.1 mem
    exact mem_allSquares.2 (possible c hc).1
  · rw [count_square e]
    exact filled square (mem_allSquares.1 mem)

theorem Filling.squares (filling : e.Filling cells) :
    (cells.map Cell.square).Perm (allSquares e.size) :=
  perm_allSquares filling.possible fun square onBoard => filling.once (.filled square) onBoard

theorem Filling.nodup_squares (filling : e.Filling cells) : (cells.map Cell.square).Nodup :=
  filling.squares.nodup_iff.2 (nodup_allSquares e.size)

/-- The uses of a column are the cells that meet its demand. -/
theorem countP_uses (e : Encoding) (cells : List Cell) (d : Demand) :
    cells.countP (d.name ∈ e.uses ·) = cells.countP (e.Meets · d) := by
  refine List.countP_congr fun c _ => ?_
  simp only [decide_eq_true_eq]
  exact name_mem_uses

/-- The selections of candidates that fit the demands are the fillings. -/
theorem fits_iff_filling (sound : e.Sound) :
    Fits e.candidates e.uses e.names [] cells ↔ e.Filling cells := by
  constructor
  · intro fits
    have possible : ∀ c ∈ cells, e.Possible c := fun c hc =>
      ((mem_candidates sound).1 (fits.available c hc)).1
    have once : ∀ d, e.Poses d → cells.countP (e.Meets · d) = 1 := by
      intro d poses
      rw [← countP_uses]
      exact fits.primary _ (List.mem_map_of_mem ((mem_allDemands sound).2 poses))
    refine ⟨possible, once, fun g hg => ?_⟩
    -- The square of a given cell is filled, by no other candidate.
    have filled := once (.filled g.square) (sound.given g hg).1
    obtain ⟨c, hc, meets⟩ := List.countP_pos_iff.1 (filled ▸ Nat.one_pos)
    have same : e.Meets c (.filled g.square) := of_decide_eq_true meets
    exact ((mem_candidates sound).1 (fits.available c hc)).2 g hg (Eq.symm same) ▸ hc
  · intro filling
    have squares := filling.nodup_squares
    refine ⟨squares.of_map, fun c hc => ?_, fun c hc => ?_, fun name mem => ?_, nofun⟩
    · refine (mem_candidates sound).2 ⟨filling.possible c hc, fun g hg same => ?_⟩
      exact List.inj_on_of_nodup_map squares (filling.keeps g hg) hc same
    · have possible := filling.possible c hc
      have meets : e.Meets c (.filled c.square) := rfl
      have poses := meets.poses sound possible
      exact ⟨_, List.mem_map_of_mem ((mem_allDemands sound).2 poses),
        name_mem_uses.2 meets⟩
    · obtain ⟨d, hd, rfl⟩ := List.mem_map.1 mem
      have poses := (mem_allDemands sound).1 hd
      rw [countP_uses]
      exact filling.once d poses

end Encoding

/-! ## Boards that complete a board -/

/-- The encoding of a board. -/
def Board.encoding (b : Board) : Encoding :=
  let root := isqrt b.size.toNat
  ⟨b.size, b.cells, b.alphabet, root * root == b.size.toNat⟩

/-- Symbols that occur once, among no more cells than there are symbols, leave no room for other
values. -/
theorem value_mem (different : alphabet.Nodup)
    (once : ∀ v ∈ alphabet, cells.countP (·.value == v) = 1)
    (few : cells.length ≤ alphabet.length) : ∀ c ∈ cells, c.value ∈ alphabet := by
  have occurs : alphabet ⊆ cells.map Cell.value := by
    intro v hv
    obtain ⟨c, hc, same⟩ := List.countP_pos_iff.1 (once v hv ▸ Nat.one_pos)
    exact List.mem_map.2 ⟨c, hc, eq_of_beq same⟩
  have perm := (different.subperm occurs).perm_of_length_le (by rwa [List.length_map])
  intro c hc
  exact perm.mem_iff.2 (List.mem_map_of_mem hc)

namespace Board

/-- No square has two cells. -/
theorem nodup_squares (b : Board) : (b.cells.map Cell.square).Nodup := by
  refine List.pairwise_map.2 (b.ordered.imp fun {c d} less same => ?_)
  rw [same] at less
  exact Square.lt_irrefl _ less

/-- A row has no more cells than a board has columns. -/
theorem length_row_le {n : Int} (squares : (cells.map Cell.square).Nodup)
    (onBoard : ∀ c ∈ cells, c.square.OnBoard n) :
    (cells.filter (rowArea row ·.square)).length ≤ n.toNat := by
  have inRow : ∀ c ∈ cells.filter (rowArea row ·.square), c ∈ cells ∧ c.square.row = row := by
    intro c hc
    obtain ⟨mem, area⟩ := List.mem_filter.1 hc
    exact ⟨mem, eq_of_beq area⟩
  have different : ((cells.filter (rowArea row ·.square)).map (·.square.column)).Nodup := by
    refine (squares.of_map.filter _).map_on fun c hc c' hc' same => ?_
    obtain ⟨mem, first⟩ := inRow c hc
    obtain ⟨mem', second⟩ := inRow c' hc'
    refine List.inj_on_of_nodup_map squares mem mem' ?_
    rw [Square.mk.injEq]
    exact ⟨first.trans second.symm, same⟩
  have columns : (cells.filter (rowArea row ·.square)).map (·.square.column) ⊆ oneTo n := by
    intro column mem
    obtain ⟨c, hc, rfl⟩ := List.mem_map.1 mem
    exact (onBoard c (inRow c hc).1).column_mem
  have length := (different.subperm columns).length_le
  rwa [List.length_map, length_oneTo] at length

/-! ### Occurrences are demands that are met -/

theorem occurrences_row (e : Encoding) (s : Board) (row : Int) (v : String) :
    s.occurrences v (rowArea row) = s.cells.countP (e.Meets · (.inRow row v)) := by
  refine List.countP_congr fun c _ => ?_
  simp only [rowArea, Bool.and_eq_true, beq_iff_eq, decide_eq_true_eq]
  rfl

theorem occurrences_column (e : Encoding) (s : Board) (column : Int) (v : String) :
    s.occurrences v (columnArea column) = s.cells.countP (e.Meets · (.inColumn column v)) := by
  refine List.countP_congr fun c _ => ?_
  simp only [columnArea, Bool.and_eq_true, beq_iff_eq, decide_eq_true_eq]
  rfl

theorem occurrences_box {e : Encoding} (sound : e.Sound) (boxes : e.boxes = true)
    (onBoard : ∀ c ∈ s.cells, c.square.OnBoard e.size) {down across : Int}
    (inside : across ∈ oneTo e.side) (v : String) :
    s.occurrences v (boxArea e.side down across)
      = s.cells.countP (e.Meets · (.inBox ((down - 1) * e.side + across) v)) := by
  refine List.countP_congr fun c hc => ?_
  have square := sound.boxes.1 boxes
  have area : boxNumber e.side c.square = (down - 1) * e.side + across ↔
      boxArea e.side down across c.square = true :=
    boxNumber_eq_iff sound.side_pos (square ▸ onBoard c hc) inside
  rw [Bool.and_eq_true, ← area, beq_iff_eq, decide_eq_true_eq]
  exact ⟨fun ⟨number, value⟩ => ⟨boxes, number, value⟩, fun ⟨_, number, value⟩ => ⟨number, value⟩⟩

/-- The side of the boxes is the root of the size. -/
theorem side_eq {e : Encoding} {side : Int} (pos : 1 ≤ side) (root : side * side = e.size) :
    e.side = side := by
  obtain ⟨k, rfl⟩ := Int.eq_ofNat_of_zero_le (show 0 ≤ side by omega)
  have size : e.size.toNat = k * k := by
    rw [← root]
    rfl
  rw [Encoding.side, isqrt_of_mul_self size.symm]

/-- Boxes are not larger than the board. -/
theorem side_mem {e : Encoding} (sound : e.Sound) (root : e.side * e.side = e.size) :
    e.side ∈ oneTo e.size := by
  have pos := sound.side_pos
  have grows : 1 * e.side ≤ e.side * e.side := Int.mul_le_mul_of_nonneg_right pos (by omega)
  exact mem_oneTo.2 ⟨pos, by omega⟩

namespace Completes

theorem onBoard (completes : s.Completes b) : ∀ c ∈ s.cells, c.square.OnBoard b.size := by
  intro c hc
  have mem : c.square ∈ s.cells.map Cell.square := List.mem_map_of_mem hc
  rw [completes.full, completes.size] at mem
  exact mem_allSquares.1 mem

/-- The symbols fill every row, so there is no other value. -/
theorem possible (sound : b.encoding.Sound) (completes : s.Completes b) :
    ∀ c ∈ s.cells, b.encoding.Possible c := by
  intro c hc
  have onBoard := completes.onBoard c hc
  have few : (s.cells.filter (rowArea c.square.row ·.square)).length ≤ b.size.toNat :=
    length_row_le s.nodup_squares completes.onBoard
  have rows := completes.rows
  rw [completes.size, completes.alphabet] at rows
  have once : ∀ v ∈ b.alphabet,
      (s.cells.filter (rowArea c.square.row ·.square)).countP (·.value == v) = 1 := by
    intro v hv
    rw [← rows c.square.row onBoard.row_mem v hv, List.countP_filter]
    refine List.countP_congr fun c' _ => ?_
    rw [Bool.and_comm]
  have inRow : c ∈ s.cells.filter (rowArea c.square.row ·.square) :=
    List.mem_filter.2 ⟨hc, beq_self_eq_true _⟩
  exact ⟨onBoard, value_mem sound.different once (few.trans_eq sound.length.symm) c inRow⟩

/-- The cells of a board that completes a board are a filling. -/
theorem filling (sound : b.encoding.Sound) (completes : s.Completes b) :
    b.encoding.Filling s.cells := by
  have rows := completes.rows
  have columns := completes.columns
  have areas := completes.boxes
  rw [completes.size, completes.alphabet] at rows columns areas
  refine ⟨completes.possible sound, fun d poses => ?_, completes.keeps⟩
  cases d with
  | filled square =>
    rw [← Encoding.count_square, completes.full, completes.size]
    exact List.count_eq_one_of_mem (nodup_allSquares b.size) (mem_allSquares.2 poses)
  | inRow number v =>
    rw [← occurrences_row]
    exact rows number poses.1 v poses.2
  | inColumn number v =>
    rw [← occurrences_column]
    exact columns number poses.1 v poses.2
  | inBox number v =>
    obtain ⟨boxes, mem, hv⟩ := poses
    have square := sound.boxes.1 boxes
    rw [← square] at mem
    obtain ⟨down, hd, across, ha, rfl⟩ := exists_box sound.side_pos mem
    rw [← occurrences_box sound boxes completes.onBoard ha]
    exact areas _ (side_mem sound square) square down hd across ha v hv

end Completes

/-- The boards that complete a board are the fillings. -/
theorem completes_iff_filling (sound : b.encoding.Sound) :
    s.Completes b ↔
      s.size = b.size ∧ s.alphabet = b.alphabet ∧ b.encoding.Filling s.cells := by
  constructor
  · intro completes
    exact ⟨completes.size, completes.alphabet, completes.filling sound⟩
  · rintro ⟨size, alphabet, filling⟩
    have onBoard : ∀ c ∈ s.cells, c.square.OnBoard b.size := fun c hc => (filling.possible c hc).1
    refine ⟨size, alphabet, ?_, ?_, ?_, ?_, filling.keeps⟩
    · rw [size]
      exact eq_of_perm Square.lt_asymm (List.pairwise_map.2 s.ordered) (pairwise_allSquares _)
        filling.squares
    · rw [size, alphabet]
      intro row mem v hv
      rw [occurrences_row b.encoding]
      exact filling.once (.inRow row v) ⟨mem, hv⟩
    · rw [size, alphabet]
      intro column mem v hv
      rw [occurrences_column b.encoding]
      exact filling.once (.inColumn column v) ⟨mem, hv⟩
    · rw [size, alphabet]
      intro side mem root down hd across ha v hv
      have root : side * side = b.encoding.size := root
      obtain rfl := side_eq (mem_oneTo.1 mem).1 root
      have boxes := sound.boxes.2 root
      have number := number_mem sound.side_pos hd ha
      rw [root] at number
      rw [occurrences_box sound boxes onBoard ha]
      exact filling.once (.inBox _ v) ⟨boxes, number, hv⟩

end Board

end DancingLinks.Sudoku
