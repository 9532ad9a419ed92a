import DancingLinks.Proofs.Grid
import DancingLinks.Proofs.Sudoku.Filling

/-!
# What the lines of a board show

A board whose cells have symbols is written with one character on every square (`Board.toLines_eq`): the
symbol of its cell there, or a dot. So its cells are the squares that its lines do not leave empty
(`Board.mem_cells_iff_showsAt`).
-/

namespace DancingLinks.Sudoku

variable {x : Char} {s : Square} {v : String} {c : Cell}

/-! ## Characters and values -/

theorem singleton_inj {x y : Char} (same : String.singleton x = String.singleton y) : x = y := by
  have lists := congrArg String.toList same
  simpa using lists

/-- The character that a value is written as. -/
def charOf (v : Option String) : Char := (v.bind fun text => text.toList.head?).getD emptySymbol

theorem charOf_singleton (x : Char) : charOf (some (String.singleton x)) = x := by
  rw [charOf, Option.bind_some, String.toList_singleton]
  rfl

/-- A symbol is written as its only character, which is no dot. -/
theorem charOf_symbol (symbol : isSymbol v = true) :
    String.singleton (charOf (some v)) = v ∧ charOf (some v) ≠ emptySymbol := by
  obtain ⟨x, single, -, plain⟩ := symbol_toList symbol
  obtain rfl : v = String.singleton x := by
    rw [← String.toList_inj, single, String.toList_singleton]
  rw [charOf_singleton]
  refine ⟨rfl, ?_⟩
  rintro rfl
  exact plain List.mem_cons_self

namespace Board

variable {b : Board}

/-! ## Values of squares -/

/-- A board has a value on a square when it has a cell there. -/
theorem valueAt_eq_some_iff : b.valueAt s = some v ↔ ⟨s, v⟩ ∈ b.cells := by
  have of_found {c : Cell} (found : b.cells.find? (·.square = s) = some c) :
      c ∈ b.cells ∧ c.square = s :=
    ⟨List.mem_of_find?_eq_some found, by simpa using List.find?_some found⟩
  rw [Board.valueAt, Option.map_eq_some_iff]
  constructor
  · rintro ⟨c, found, rfl⟩
    obtain ⟨mem, rfl⟩ := of_found found
    exact mem
  · intro mem
    have some : (b.cells.find? (·.square = s)).isSome := by
      rw [List.find?_isSome]
      exact ⟨⟨s, v⟩, mem, decide_eq_true rfl⟩
    obtain ⟨c, found⟩ := Option.isSome_iff_exists.1 some
    obtain ⟨mem', here⟩ := of_found found
    have same : c = ⟨s, v⟩ := List.inj_on_of_nodup_map b.nodup_squares mem' mem here
    exact ⟨c, found, congrArg Cell.value same⟩

/-- The value of a square is a symbol, when the cells have symbols. -/
theorem symbol_of_valueAt (symbols : ∀ c ∈ b.cells, isSymbol c.value = true)
    (here : b.valueAt s = some v) : isSymbol v = true :=
  symbols _ (valueAt_eq_some_iff.1 here)

/-- The character of a square is no dot when there is a cell with it. -/
theorem charOf_valueAt_iff (symbols : ∀ c ∈ b.cells, isSymbol c.value = true) :
    x = charOf (b.valueAt s) ∧ x ≠ emptySymbol ↔ ⟨s, String.singleton x⟩ ∈ b.cells := by
  rw [← valueAt_eq_some_iff]
  constructor
  · rintro ⟨rfl, solid⟩
    cases here : b.valueAt s with
    | none =>
      rw [here] at solid
      exact absurd rfl solid
    | some v => rw [(charOf_symbol (symbol_of_valueAt symbols here)).1]
  · intro here
    have solid := (charOf_symbol (symbol_of_valueAt symbols here)).2
    rw [charOf_singleton] at solid
    exact ⟨by rw [here, charOf_singleton], solid⟩

/-! ## Lines -/

theorem length_toLines (b : Board) : b.toLines.length = b.size.toNat := length_gridLines _ _

/-- The lines of a board whose cells have symbols show one character on each square. -/
theorem toLines_eq (symbols : ∀ c ∈ b.cells, isSymbol c.value = true) :
    b.toLines = gridLines b.size fun s => String.singleton (charOf (b.valueAt s)) := by
  refine congrArg (gridLines b.size) (funext fun s => ?_)
  cases here : b.valueAt s with
  | none => rfl
  | some v => exact (charOf_symbol (symbol_of_valueAt symbols here)).1.symm

/-- The lines of a board show its cells. -/
theorem mem_cells_iff_showsAt (symbols : ∀ c ∈ b.cells, isSymbol c.value = true)
    (onBoard : ∀ c ∈ b.cells, c.square.OnBoard b.size) :
    c ∈ b.cells ↔
      ∃ x, ShowsAt b.toLines c.square x ∧ x ≠ emptySymbol ∧ c.value = String.singleton x := by
  obtain ⟨square, value⟩ := c
  simp only [toLines_eq symbols, showsAt_gridLines]
  constructor
  · intro mem
    have symbol : isSymbol value = true := symbols _ mem
    obtain ⟨same, solid⟩ := charOf_symbol symbol
    rw [← same] at mem ⊢
    have here := (charOf_valueAt_iff symbols).2 mem
    exact ⟨_, ⟨onBoard _ mem, here.1⟩, solid, rfl⟩
  · rintro ⟨x, ⟨-, here⟩, solid, rfl⟩
    exact (charOf_valueAt_iff symbols).1 ⟨here, solid⟩

end Board

end DancingLinks.Sudoku
