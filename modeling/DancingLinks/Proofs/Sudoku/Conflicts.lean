import DancingLinks.Proofs.Matrix.Grammar
import DancingLinks.Proofs.Sudoku.Solutions

/-!
# Conflicts and columns

The rules let at most one of two different cells stand on a board when these are on one square, or have
one value and share a row, a column or a box (`Conflict`). In the matrix of a board this is told by
names: two candidates use a common column exactly when they conflict (`Encoding.common_name_iff`).

The matrix `Portrays` its board: it has as many columns as the rules have demands, and its rows are the
candidates in order. Every board with different symbols and possible given cells has such a matrix, unless a
square is given more than once (`conflicts_are_columns`). The encoding of a board reads only as many
symbols of the alphabet as there are on it, so it is that of the board with just these symbols
(`Encoding.fitted`), which is sound.
-/

namespace DancingLinks.Sudoku

open DancingLinks.Matrix (ofConstraintLines)

variable {n : Int} {alphabet : List String} {given : List Cell} {c d : Cell} {s t : Square}

/-! ## The rules -/

/-- The squares lie in a common box, on a board that has boxes. -/
def SameBox (size : Int) (s t : Square) : Prop :=
  ∃ side ∈ oneTo size, side * side = size ∧ ∃ down across,
    Board.boxArea side down across s = true ∧ Board.boxArea side down across t = true

/-- The rules exclude that both cells stand on the board, if they differ. -/
def Conflict (size : Int) (c d : Cell) : Prop :=
  c.square = d.square ∨ c.value = d.value ∧ (c.square.row = d.square.row ∨
    c.square.column = d.square.column ∨ SameBox size c.square d.square)

/-- Squares lie in a common box when as many boxes are above them, and as many to their left. -/
theorem exists_boxArea_iff {side : Int} :
    (∃ down across, Board.boxArea side down across s = true ∧
      Board.boxArea side down across t = true) ↔
      (s.row - 1) / side = (t.row - 1) / side ∧ (s.column - 1) / side = (t.column - 1) / side := by
  simp only [Board.boxArea, Bool.and_eq_true, beq_iff_eq]
  constructor
  · rintro ⟨down, across, ⟨row, column⟩, row', column'⟩
    exact ⟨row.trans row'.symm, column.trans column'.symm⟩
  · rintro ⟨row, column⟩
    exact ⟨(s.row - 1) / side + 1, (s.column - 1) / side + 1, by omega⟩

/-! ## Cells in order -/

theorem Cell.eq_of_not_lt (c d : Cell) (cd : ¬c < d) (dc : ¬d < c) : c = d := by
  rw [Cell.lt_iff, not_or, not_and] at cd dc
  have square := Square.eq_of_not_lt _ _ cd.1 dc.1
  have value := String.le_antisymm (String.not_lt.1 (dc.2 square.symm)) (String.not_lt.1 (cd.2 square))
  cases c
  cases d
  exact congr (congrArg Cell.mk square) value

namespace Encoding

variable {e : Encoding}

/-- The candidates of a sound board are in increasing order. -/
theorem pairwise_candidates (sound : e.Sound) : e.candidates.Pairwise (· < ·) :=
  pairwise_lt_sorted Cell.lt_asymm Cell.not_lt_trans Cell.eq_of_not_lt
    ((sorted_perm _).nodup_iff.1 (nodup_candidates sound))

/-- Only the value that is given is a candidate on a given square, and every symbol on the others. -/
theorem mem_candidates_iff (sound : e.Sound) : c ∈ e.candidates ↔
    c.square.OnBoard e.size ∧ c.value ∈ e.symbols ∧
      ∀ g ∈ e.given, g.square = c.square → g.value = c.value := by
  rw [mem_candidates sound, sound.symbols_eq, Possible, and_assoc]
  refine and_congr_right fun _ => and_congr_right fun _ => forall₂_congr fun g _ => ?_
  refine ⟨fun alone square => congrArg Cell.value (alone square), fun alone square => ?_⟩
  cases g
  cases c
  exact congr (congrArg Cell.mk square) (alone square)

/-! ## Common columns -/

/-- Cells that use a common column meet a common demand. -/
theorem common_name_iff_meets :
    (∃ name ∈ e.uses c, name ∈ e.uses d) ↔ ∃ demand, e.Meets c demand ∧ e.Meets d demand := by
  constructor
  · rintro ⟨name, used, used'⟩
    obtain ⟨demand, mem, rfl⟩ := List.mem_map.1 used
    exact ⟨demand, mem_met.1 mem, name_mem_uses.1 used'⟩
  · rintro ⟨demand, meets, meets'⟩
    exact ⟨demand.name, name_mem_uses.2 meets, name_mem_uses.2 meets'⟩

/-- Squares of a board with boxes have the number of one box when they lie in a common box. -/
theorem sameBox_iff (sound : e.Sound) (hs : s.OnBoard e.size) (ht : t.OnBoard e.size) :
    SameBox e.size s t ↔ e.boxes = true ∧ boxNumber e.side s = boxNumber e.side t := by
  have numbers : e.boxes = true → (boxNumber e.side s = boxNumber e.side t ↔
      (s.row - 1) / e.side = (t.row - 1) / e.side ∧
        (s.column - 1) / e.side = (t.column - 1) / e.side) := by
    intro boxes
    have root := sound.boxes.1 boxes
    exact boxNumber_eq_boxNumber_iff sound.side_pos (root ▸ hs) (root ▸ ht)
  constructor
  · rintro ⟨side, mem, root, areas⟩
    obtain rfl := Board.side_eq (mem_oneTo.1 mem).1 root
    have boxes := sound.boxes.2 root
    exact ⟨boxes, (numbers boxes).2 (exists_boxArea_iff.1 areas)⟩
  · rintro ⟨boxes, same⟩
    have root := sound.boxes.1 boxes
    exact ⟨e.side, Board.side_mem sound root, root, exists_boxArea_iff.2 ((numbers boxes).1 same)⟩

/-- Possible cells use a common column when they conflict. -/
theorem common_name_iff (sound : e.Sound) (hc : e.Possible c) (hd : e.Possible d) :
    (∃ name ∈ e.uses c, name ∈ e.uses d) ↔ Conflict e.size c d := by
  rw [common_name_iff_meets, Conflict, sameBox_iff sound hc.1 hd.1]
  constructor
  · rintro ⟨demand, meets, meets'⟩
    cases demand with
    | filled s => exact .inl (meets.trans meets'.symm)
    | inRow number v =>
      exact .inr ⟨meets.2.trans meets'.2.symm, .inl (meets.1.trans meets'.1.symm)⟩
    | inColumn number v =>
      exact .inr ⟨meets.2.trans meets'.2.symm, .inr (.inl (meets.1.trans meets'.1.symm))⟩
    | inBox number v =>
      obtain ⟨boxes, here, value⟩ := meets
      obtain ⟨-, here', value'⟩ := meets'
      exact .inr ⟨value.trans value'.symm, .inr (.inr ⟨boxes, here.trans here'.symm⟩)⟩
  · rintro (square | ⟨value, row | column | ⟨boxes, box⟩⟩)
    · exact ⟨.filled c.square, rfl, square.symm⟩
    · exact ⟨.inRow c.square.row c.value, ⟨rfl, rfl⟩, row.symm, value.symm⟩
    · exact ⟨.inColumn c.square.column c.value, ⟨rfl, rfl⟩, column.symm, value.symm⟩
    · exact ⟨.inBox (boxNumber e.side c.square) c.value, ⟨boxes, rfl, rfl⟩, boxes, box.symm,
        value.symm⟩

/-! ## The number of columns -/

/-- Every number from one to the size stands before every symbol. -/
theorem length_each (demand : Int → String → Demand) (n : Int) (symbols : List String) :
    ((oneTo n).flatMap fun number => symbols.map (demand number)).length
      = n.toNat * symbols.length := by
  simp [List.length_flatMap, length_oneTo]

/-- There is a column for every square, and for every symbol in every row, every column and, if there
are boxes, in every box. -/
theorem length_names (sound : e.Sound) :
    e.names.length = (if e.boxes then 4 else 3) * (e.size.toNat * e.size.toNat) := by
  have squares : (allSquares e.size).length = e.size.toNat * e.size.toNat := by
    simp [allSquares, List.length_flatMap, length_oneTo]
  have each := fun demand => length_each demand e.size e.alphabet
  rw [sound.length] at each
  unfold names allDemands
  rw [sound.symbols_eq, eraseDups_of_nodup sound.different]
  simp only [List.length_map, List.length_append, squares, each]
  split
  · rw [each]
    omega
  · rw [List.length_nil]
    omega

/-- The board has boxes when its size is a perfect square. -/
theorem boxes_iff (sound : e.Sound) : e.boxes = true ↔ ∃ side : Int, side * side = e.size := by
  rw [sound.boxes]
  constructor
  · exact fun root => ⟨e.side, root⟩
  · rintro ⟨side, root⟩
    rw [← Int.natAbs_mul_self'] at root
    have size := sound.size
    have pos : 1 ≤ (side.natAbs : Int) := by
      by_contra zero
      have zero : (side.natAbs : Int) = 0 := by omega
      rw [zero] at root
      omega
    rw [Board.side_eq pos root, root]

/-! ## Symbols that are not needed -/

/-- The board without the symbols that it has no use for. -/
def fitted (e : Encoding) : Encoding := { e with alphabet := e.symbols }

theorem symbols_fitted (e : Encoding) : e.fitted.symbols = e.symbols := by
  simp [fitted, symbols, List.take_take]

/-- They do not occur in its lines. -/
theorem lines_fitted (e : Encoding) : e.fitted.lines = e.lines := by
  have header : e.fitted.header = e.header := by
    simp only [header, allDemands, symbols_fitted]
    rfl
  have candidates : e.fitted.candidates = e.candidates := by
    simp only [candidates, symbols_fitted]
    rfl
  simp only [lines, header, candidates]
  rfl

/-- With as many different symbols as there are on the board it is sound. -/
theorem fitted_sound {boxes : Bool} (size : 1 ≤ n) (accepted : checkAlphabet alphabet n = .ok ())
    (different : (alphabet.take n.toNat).Nodup) (distinct : (given.map Cell.square).Nodup)
    (possible : ∀ g ∈ given, g.square.OnBoard n ∧ g.value ∈ alphabet.take n.toNat)
    (root : isPerfectSquare n = .ok boxes) : (fitted ⟨n, given, alphabet, boxes⟩).Sound where
  size := size
  length := by
    have large := (checkAlphabet_eq_ok_iff.1 accepted).1
    simp only [fitted, symbols, List.length_take]
    omega
  different := different
  symbols := fun v mem => (checkAlphabet_eq_ok_iff.1 accepted).2 v (List.mem_of_mem_take mem)
  squares := distinct
  given := possible
  boxes := by
    have found : isPerfectSquare n = .ok (isqrt n.toNat * isqrt n.toNat == n.toNat) := if_neg (by omega)
    cases found.symm.trans root
    exact isqrt_mul_self_iff (by omega)

end Encoding

/-! ## The matrix of a board -/

/-- The matrix of a board with given cells, made from its constraint lines. -/
def matrixOf (size : Int) (given : List Cell) (alphabet : List String) : Except Fault Matrix := do
  ofConstraintLines (← (← Encoding.of size given alphabet).lines)

/-- A matrix has a column for each demand of the rules, and some cells as its rows, which conflict as
the rules say. -/
structure Portrays (size : Int) (given : List Cell) (symbols : List String) (m : Matrix)
    (columns : List String) (cells : List Cell) (uses : Cell → List String) : Prop where
  /-- No column is secondary. -/
  contains : m.Contains columns [] (cells.map fun c => (cellName c, uses c))
  different : columns.Nodup
  number : (¬∃ side : Int, side * side = size) → (columns.length : Int) = 3 * size * size
  numberWithBoxes : (∃ side : Int, side * side = size) → (columns.length : Int) = 4 * size * size
  /-- The cells are in order, and none is listed twice. -/
  ordered : cells.Pairwise (· < ·)
  /-- A square that is given may only have its own value, and every other one any symbol. -/
  candidates : ∀ c, c ∈ cells ↔ c.square.OnBoard size ∧ c.value ∈ symbols ∧
    ∀ g ∈ given, g.square = c.square → g.value = c.value
  named : ∀ c ∈ cells, readCellName (cellName c) = .ok c
  conflicts : ∀ c ∈ cells, ∀ d ∈ cells, (∃ name ∈ uses c, name ∈ uses d) ↔ Conflict size c d

/-- The lines of a sound board become a matrix that portrays it. -/
theorem Encoding.exists_portrays {e : Encoding} (sound : e.Sound) :
    ∃ lines m columns cells uses, e.lines = .ok lines ∧ ofConstraintLines lines = .ok m ∧
      Portrays e.size e.given e.symbols m columns cells uses := by
  obtain ⟨lines, m, choices, written, made, built, encodes⟩ := ofConstraintLines_ok sound
  have contains := built.contains
  rw [encodes.contents] at contains
  have size : (e.size.toNat : Int) = e.size := Int.toNat_of_nonneg (by have := sound.size; omega)
  have possible : ∀ c ∈ e.candidates, e.Possible c := fun c hc => ((mem_candidates sound).1 hc).1
  refine ⟨lines, m, e.names, e.candidates, e.uses, written, made, ?_⟩
  exact
    { contains
      different := (nodup_allDemands sound).map fun _ _ => Demand.name_inj
      number := by
        intro noRoot
        have boxes := mt (boxes_iff sound).1 noRoot
        rw [length_names sound, if_neg boxes]
        push_cast
        rw [size, Int.mul_assoc]
      numberWithBoxes := by
        intro root
        rw [length_names sound, if_pos ((boxes_iff sound).2 root)]
        push_cast
        rw [size, Int.mul_assoc]
      ordered := pairwise_candidates sound
      candidates := fun c => mem_candidates_iff sound
      named := fun c hc => readCellName_cellName (sound.proper (possible c hc))
      conflicts := fun c hc d hd => common_name_iff sound (possible c hc) (possible d hd) }

/-- Candidates conflict as the rules say. A board of positive size, with an alphabet that is accepted and
starts with different symbols, and with given cells that are on the board and have such symbols, becomes
a matrix that portrays it, if no square is given more than once; otherwise such a square is reported. -/
theorem conflicts_are_columns (size : 1 ≤ n) (accepted : checkAlphabet alphabet n = .ok ())
    (different : (alphabet.take n.toNat).Nodup)
    (possible : ∀ g ∈ given, g.square.OnBoard n ∧ g.value ∈ alphabet.take n.toNat) :
    ((given.map Cell.square).Nodup → ∃ m columns cells uses, matrixOf n given alphabet = .ok m ∧
      Portrays n given (alphabet.take n.toNat) m columns cells uses) ∧
    (¬(given.map Cell.square).Nodup → ∃ g ∈ given,
      matrixOf n given alphabet = .error (.duplicateCell g.square.row g.square.column)) := by
  constructor
  · intro distinct
    obtain ⟨boxes, root⟩ : ∃ boxes, isPerfectSquare n = .ok boxes := ⟨_, if_neg (by omega)⟩
    have encoded : Encoding.of n given alphabet = .ok ⟨n, given, alphabet, boxes⟩ := by
      simp only [Encoding.of, accepted, checkDistinct_of_nodup distinct, root, bind, Except.bind]
      rfl
    have sound := Encoding.fitted_sound size accepted different distinct possible root
    obtain ⟨lines, m, columns, cells, uses, written, made, portrays⟩ := Encoding.exists_portrays sound
    rw [Encoding.lines_fitted] at written
    rw [Encoding.symbols_fitted] at portrays
    refine ⟨m, columns, cells, uses, ?_, portrays⟩
    simp only [matrixOf, encoded, written, made, bind, Except.bind]
  · intro repeated
    cases found : firstRepeated (given.map Cell.square) with
    | none => exact absurd (firstRepeated_eq_none_iff.1 found) repeated
    | some square =>
      obtain ⟨g, mem, rfl⟩ := List.mem_map.1 (mem_of_firstRepeatedAfter found)
      refine ⟨g, mem, ?_⟩
      simp only [matrixOf, Encoding.of, accepted, checkDistinct, found, bind, Except.bind]

/-- Two cells for a board of four rows. -/
def twoCells : List Cell := [⟨⟨1, 1⟩, "b"⟩, ⟨⟨2, 3⟩, "b"⟩]

/-- A board with boxes, and a symbol to spare. Two cells with one value conflict in a box, though neither
in a row nor in a column. -/
theorem conflicts_are_columns_sample :
    ∃ m columns cells uses, matrixOf 4 twoCells ["d", "b", "a", "c", "e"] = .ok m ∧
      Portrays 4 twoCells ["d", "b", "a", "c"] m columns cells uses ∧
      ∃ name ∈ uses ⟨⟨3, 3⟩, "a"⟩, name ∈ uses ⟨⟨4, 4⟩, "a"⟩ := by
  have accepted : checkAlphabet ["d", "b", "a", "c", "e"] 4 = .ok () := rfl
  have possible : ∀ g ∈ twoCells, g.square.OnBoard 4 ∧ g.value ∈ ["d", "b", "a", "c"] := by decide
  obtain ⟨m, columns, cells, uses, made, portrays⟩ :=
    (conflicts_are_columns (by decide) accepted (by decide) possible).1 (by decide)
  have here : ⟨⟨3, 3⟩, "a"⟩ ∈ cells := (portrays.candidates _).2 (by decide)
  have there : ⟨⟨4, 4⟩, "a"⟩ ∈ cells := (portrays.candidates _).2 (by decide)
  refine ⟨m, columns, cells, uses, made, portrays, (portrays.conflicts _ here _ there).2 ?_⟩
  exact .inr ⟨rfl, .inr (.inr ⟨2, by decide, rfl, 2, 2, rfl, rfl⟩)⟩

/-- A cell that is given twice. -/
def cellTwice : List Cell := [⟨⟨1, 1⟩, "1"⟩, ⟨⟨1, 1⟩, "1"⟩]

/-- It is refused, although nothing else is wrong with the board. -/
theorem repeated_square_refused :
    checkAlphabet ["1"] 1 = .ok () ∧ (["1"].take 1).Nodup ∧
      (∀ g ∈ cellTwice, g.square.OnBoard 1 ∧ g.value ∈ ["1"].take 1) ∧
      matrixOf 1 cellTwice ["1"] = .error (.duplicateCell 1 1) :=
  ⟨rfl, by decide, by decide, rfl⟩

end DancingLinks.Sudoku
