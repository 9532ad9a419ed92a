import DancingLinks.Proofs.Sudoku.Covers
import DancingLinks.Proofs.Sudoku.Reading

/-!
# Solutions that are written and read

On a `Solved` board every square has a value, and the values are the alphabet of the board, in order and
without repetitions. So the lines of the board are a well formed grid that describes it, since no default
symbol has to be added to those that are seen (`Solved.parse_toLines`).

A cover holds as many cells in the first row as there are symbols, and no symbol twice. So every symbol is
seen there and no two are the same, whatever alphabet was given: solutions are solved boards
(`solved_of_solve`).
-/

namespace DancingLinks.Sudoku

variable {n : Int} {cells : List Cell} {alphabet : List String} {x : Char} {line : String} {q : Square}
  {b s : Board} {boards : List Board} {o : Options}

namespace Board

/-- A full board, on which the symbols of its alphabet are seen, and no other values. -/
structure Solved (s : Board) : Prop where
  size : 1 ≤ s.size
  squares : (s.cells.map Cell.square).Perm (allSquares s.size)
  values : ∀ v, v ∈ s.alphabet ↔ ∃ c ∈ s.cells, c.value = v
  symbols : ∀ v ∈ s.alphabet, isSymbol v = true
  increasing : s.alphabet.Pairwise (· < ·)
  length : s.alphabet.length = s.size.toNat

namespace Solved

variable (solved : s.Solved)

include solved

/-! ## The lines of a solved board -/

theorem onBoard : ∀ c ∈ s.cells, c.square.OnBoard s.size := fun _ hc =>
  mem_allSquares.1 (solved.squares.mem_iff.1 (List.mem_map_of_mem hc))

theorem symbol : ∀ c ∈ s.cells, isSymbol c.value = true := fun c hc =>
  solved.symbols _ ((solved.values _).2 ⟨c, hc, rfl⟩)

/-- Every square shows the value of its cell. -/
theorem showsAt : ShowsAt s.toLines q x ↔ ⟨q, String.singleton x⟩ ∈ s.cells := by
  rw [toLines_eq solved.symbol, showsAt_gridLines]
  constructor
  · rintro ⟨onBoard, rfl⟩
    have filled := solved.squares.mem_iff.2 (mem_allSquares.2 onBoard)
    obtain ⟨⟨_, v⟩, mem, rfl⟩ := List.mem_map.1 filled
    have symbol : isSymbol v = true := solved.symbol _ mem
    rwa [valueAt_eq_some_iff.2 mem, (charOf_symbol symbol).1]
  · intro mem
    exact ⟨solved.onBoard _ mem, ((charOf_valueAt_iff solved.symbol).2 mem).1⟩

/-- The characters of the lines are symbols. -/
theorem symbol_of_mem (mem : line ∈ s.toLines) (there : x ∈ line.toList) :
    isSymbol (String.singleton x) = true := by
  obtain ⟨q, shown⟩ := exists_showsAt mem there
  exact solved.symbol ⟨q, String.singleton x⟩ (solved.showsAt.1 shown)

/-- The symbols that are seen are those of the alphabet. -/
theorem mem_seen : x ∈ seen s.toLines ↔ String.singleton x ∈ s.alphabet := by
  rw [mem_seen_iff_showsAt, solved.values]
  constructor
  · rintro ⟨⟨q, shown⟩, -⟩
    exact ⟨_, solved.showsAt.1 shown, rfl⟩
  · rintro ⟨⟨q, v⟩, mem, rfl⟩
    have symbol := isSymbol_singleton.1 (solved.symbol ⟨q, String.singleton x⟩ mem)
    exact ⟨⟨q, solved.showsAt.2 mem⟩, symbol.2.1⟩

/-- There are as many of them as a row has squares. -/
theorem card_seen : (seen s.toLines).card = s.size.toNat := by
  have image : (seen s.toLines).image String.singleton = s.alphabet.toFinset := by
    ext v
    rw [Finset.mem_image, List.mem_toFinset]
    constructor
    · rintro ⟨x, hx, rfl⟩
      exact solved.mem_seen.1 hx
    · intro mem
      obtain ⟨written, -⟩ := charOf_symbol (solved.symbols v mem)
      exact ⟨charOf (some v), solved.mem_seen.2 (by rwa [written]), written⟩
  have different : s.alphabet.Nodup := by
    refine solved.increasing.imp fun {v w} less => ?_
    rintro rfl
    exact String.lt_irrefl v less
  rw [← Finset.card_image_of_injective _ fun x y => singleton_inj, image,
    List.toFinset_card_of_nodup different, solved.length]

theorem isSquare_toLines : IsSquare s.size s.toLines := by
  rw [toLines_eq solved.symbol]
  exact isSquare_gridLines solved.size _

/-- Nothing gets lost when the lines are read. -/
theorem gridRows_toLines : gridRows s.toLines = s.toLines := by
  refine gridRows_eq_self fun line mem => ⟨fun empty => ?_, fun x there => ?_⟩
  · have size := solved.size
    have length := solved.isSquare_toLines.width line mem
    rw [← String.length_toList, empty, List.length_nil] at length
    omega
  · exact (isSymbol_singleton.1 (solved.symbol_of_mem mem there)).1

theorem wellFormed : WellFormed s.toLines := by
  have size := solved.size
  have length := length_toLines s
  refine ⟨by omega, fun line mem => ?_, ?_, fun x seen => ?_, ?_⟩
  · have width := solved.isSquare_toLines.width line mem
    omega
  · rw [solved.card_seen, length]
  · obtain ⟨solid, -, free⟩ := isSymbol_singleton.1 (solved.symbols _ (solved.mem_seen.1 seen))
    exact ⟨solid, free⟩
  · rw [length, ← solved.card_seen]
    exact Finset.card_le_card Finset.subset_union_left

/-- The lines of a solved board describe it. -/
theorem describes : Describes s.toLines s := by
  have size := solved.size
  have length := length_toLines s
  -- All symbols are seen, so the alphabet is not filled up.
  have full : added s.toLines = [] := by
    rw [added, solved.card_seen, length, Nat.sub_self, List.take_zero]
  refine ⟨by omega, fun c => mem_cells_iff_showsAt solved.symbol solved.onBoard, solved.increasing,
    fun v => ?_, by rw [solved.length, length]⟩
  rw [full]
  constructor
  · intro mem
    obtain ⟨written, -⟩ := charOf_symbol (solved.symbols v mem)
    exact ⟨charOf (some v), .inl (solved.mem_seen.2 (by rwa [written])), written.symm⟩
  · rintro ⟨x, seen | none, rfl⟩
    · exact solved.mem_seen.1 seen
    · cases none

/-- A solved board is read from its lines. -/
theorem parse_toLines : parse s.toLines = .ok s := by
  obtain ⟨b, read, describes⟩ := readRows_of_wellFormed solved.wellFormed
  rw [parse_eq, solved.gridRows_toLines, read, describes.unique solved.describes]

end Solved

/-! ## Solutions are solved boards -/

section FirstRow

/-- The values of the cells in the first row. -/
def firstRow (cells : List Cell) : List String :=
  (cells.filter (·.square.row = 1)).map Cell.value

variable {e : Encoding} (meets : e.MeetsAll cells)

include meets

theorem firstRow_subset : firstRow cells ⊆ e.alphabet := by
  intro v mem
  obtain ⟨c, hc, rfl⟩ := List.mem_map.1 mem
  exact (meets.possible c (List.mem_filter.1 hc).1).2

variable (size : 1 ≤ e.size) (length : e.alphabet.length = e.size.toNat)

include size length

/-- The demand to have a symbol in the first row is met once. -/
theorem count_firstRow {v : String} (hv : v ∈ e.alphabet) : (firstRow cells).count v = 1 := by
  have all : e.symbols = e.alphabet := List.take_of_length_le (Nat.le_of_eq length)
  have posed := Encoding.inRow_mem_allDemands.2 ⟨mem_oneTo.2 ⟨Int.le_refl 1, size⟩, all.symm ▸ hv⟩
  rw [← meets.once _ posed, firstRow, List.count, List.countP_map, List.countP_filter]
  refine List.countP_congr fun c _ => ?_
  simp only [Function.comp_apply, Bool.and_eq_true, beq_iff_eq, decide_eq_true_eq]
  exact and_comm

theorem nodup_firstRow : (firstRow cells).Nodup :=
  List.nodup_iff_count_eq_one.2 fun _ mem =>
    count_firstRow meets size length (firstRow_subset meets mem)

/-- There is a cell in every column of the row, so every symbol is among its values. -/
theorem firstRow_perm : (firstRow cells).Perm e.alphabet := by
  have columns : oneTo e.size ⊆ (cells.filter (·.square.row = 1)).map (·.square.column) := by
    intro j hj
    have onBoard : (Square.mk 1 j).OnBoard e.size := ⟨Int.le_refl 1, size, mem_oneTo.1 hj⟩
    obtain ⟨c, hc, square⟩ := List.mem_map.1 (meets.squares.mem_iff.2 (mem_allSquares.2 onBoard))
    have row : c.square.row = 1 := congrArg Square.row square
    exact List.mem_map.2
      ⟨c, List.mem_filter.2 ⟨hc, decide_eq_true row⟩, congrArg Square.column square⟩
  have enough := ((nodup_oneTo e.size).subperm columns).length_le
  rw [length_oneTo, List.length_map] at enough
  refine ((nodup_firstRow meets size length).subperm (firstRow_subset meets)).perm_of_length_le ?_
  rwa [length, firstRow, List.length_map]

end FirstRow

/-- The alphabet of a board that is made. -/
theorem alphabet_of_of (made : of n cells alphabet = .ok b) :
    b.alphabet = sorted (alphabet.take n.toNat) := by
  unfold of at made
  dsimp only at made
  split at made
  · cases made
  · obtain ⟨⟨⟩, -, made⟩ := ok_of_bind made
    split at made
    · cases made
    · cases made
      rfl

/-- Whatever the options, the solutions of a board that was made are solved boards. -/
theorem solved_of_solve (made : of n cells alphabet = .ok b) (solved : b.solve o = .ok boards) :
    ∀ s ∈ boards, s.Solved := by
  intro s hs
  obtain ⟨size, whole, -⟩ := eq_of_of made
  obtain ⟨enough, -⟩ := checkAlphabet_eq_ok_iff.1 (checkAlphabet_of_of made)
  have length : b.alphabet.length = b.size.toNat := by
    rw [alphabet_of_of made, length_sorted, List.length_take, whole]
    omega
  obtain ⟨checked, found⟩ := exists_cells_of_solve size solved
  obtain ⟨cells, meets, perm, same, alphabet⟩ := found s hs
  rw [List.take_of_length_le (Nat.le_of_eq length)] at alphabet
  have row : (firstRow cells).Perm b.alphabet := firstRow_perm meets size length
  have sorts : s.alphabet.Perm b.alphabet := alphabet ▸ sorted_perm b.alphabet
  have different := row.nodup_iff.1 (nodup_firstRow meets size length)
  refine ⟨same ▸ size, ?_, fun v => ?_, fun v hv => ?_, ?_, ?_⟩
  · rw [same]
    exact (perm.map _).trans meets.squares
  · rw [sorts.mem_iff]
    constructor
    · intro hv
      obtain ⟨c, hc, rfl⟩ := List.mem_map.1 (row.mem_iff.2 hv)
      exact ⟨c, perm.mem_iff.2 (List.mem_filter.1 hc).1, rfl⟩
    · rintro ⟨c, hc, rfl⟩
      exact (meets.possible c (perm.mem_iff.1 hc)).2
  · exact (checkAlphabet_eq_ok_iff.1 checked.accepted).2 v (sorts.mem_iff.1 hv)
  · rw [alphabet]
    exact increasing_sorted different
  · rw [sorts.length_eq, length, same]

end Board

end DancingLinks.Sudoku
