import DancingLinks.Proofs.Matrix.Rendering
import DancingLinks.Sudoku.Encoding

/-!
# The names of cells and demands

Different demands have different names (`Demand.name_inj`). A text that has the form of a cell's name
(`IsCellName`) is read by its two numerals (`IsCellName.readCellName_eq`), and every other text is refused
(`readCellName_of_none`). So a cell whose numbers are not negative and not too long is read back from its
name (`readCellName_of_named`, `readCellName_of_long`), in particular on a board, where values are symbols
(`readCellName_cellName`). There the names are plain (`plain_cellName`, `Demand.plain_name`), so they survive
the text form of a matrix.
-/

namespace DancingLinks.Sudoku

open DancingLinks.Matrix (Plain PlainChar plainChar_repr plainChar_toString)
open Text (isBlank)

variable {value : String} {c : Cell}

/-! ## Symbols -/

/-- A symbol is one character. -/
theorem symbol_toList (symbol : isSymbol value = true) :
    ∃ x, value.toList = [x] ∧ isBlank x = false ∧ x ∉ reserved := by
  unfold isSymbol at symbol
  split at symbol
  · next x single =>
    simp only [Bool.and_eq_true, Bool.not_eq_true', decide_eq_true_eq] at symbol
    exact ⟨x, single, symbol⟩
  · cases symbol

/-- A symbol may occur in names. -/
theorem plainChar_of_symbol (symbol : isSymbol value = true) :
    ∀ x ∈ value.toList, PlainChar x := by
  obtain ⟨x, single, solid, free⟩ := symbol_toList symbol
  rw [single]
  intro y mem
  obtain rfl := List.mem_singleton.1 mem
  refine ⟨solid, ?_, ?_⟩
  · rintro rfl
    exact free (by decide)
  · rintro rfl
    exact free (by decide)

/-! ## Demands -/

namespace Demand

variable {d e : Demand}

/-- The value that is demanded. -/
def value? : Demand → Option String
  | filled _ => none
  | inRow _ value => some value
  | inColumn _ value => some value
  | inBox _ value => some value

/-- The sign of a kind of demand. -/
def sign : Demand → Char
  | filled _ => 'X'
  | inRow _ _ => 'R'
  | inColumn _ _ => 'C'
  | inBox _ _ => 'S'

/-- The number in front. -/
def number : Demand → Int
  | filled s => s.row
  | inRow number _ => number
  | inColumn number _ => number
  | inBox number _ => number

/-- What stands after the number. -/
def separator : Demand → Char
  | filled _ => '.'
  | _ => '#'

/-- What stands after the separator. -/
def rest : Demand → String
  | filled s => toString s.column
  | inRow _ value => value
  | inColumn _ value => value
  | inBox _ value => value

/-- A name is made of the sign and the other parts. -/
theorem toList_name (d : Demand) :
    d.name.toList = d.sign :: ((toString d.number).toList ++ d.separator :: d.rest.toList) := by
  cases d <;>
    simp only [name, number, rest, String.toList_append, List.append_assoc] <;> rfl

/-- What stands before the value. -/
def front (d : Demand) : String :=
  String.ofList (d.sign :: ((toString d.number).toList ++ [d.separator]))

theorem name_eq (d : Demand) : d.name = d.front ++ d.rest := by
  rw [← String.toList_inj, toList_name, String.toList_append, front, String.toList_ofList,
    List.cons_append, List.append_assoc, List.singleton_append]

theorem plainChar_front (d : Demand) : ∀ x ∈ d.front.toList, PlainChar x := by
  rw [front, String.toList_ofList]
  intro x mem
  simp only [List.mem_cons, List.mem_append, List.not_mem_nil, or_false] at mem
  rcases mem with rfl | mem | rfl
  · cases d <;> simp only [sign] <;> decide
  · exact plainChar_toString _ x mem
  · cases d <;> simp only [separator] <;> decide

/-- There are no blanks before the value. -/
theorem solid_front (d : Demand) : Text.Solid d.front.toList := by
  refine ⟨?_, fun x mem => (plainChar_front d x mem).1⟩
  rw [front, String.toList_ofList]
  exact List.cons_ne_nil _ _

/-- The number in front ends at the separator. -/
theorem separator_not_mem (d : Demand) (i : Int) : d.separator ∉ (toString i).toList := by
  intro mem
  rcases Text.of_mem_toString mem with digit | minus
  · cases d <;> cases digit
  · cases d <;> cases minus

/-- The parts of a demand tell it. -/
theorem eq_of_parts (sign : d.sign = e.sign) (number : d.number = e.number)
    (rest : d.rest.toList = e.rest.toList) : d = e := by
  cases d <;> cases e <;> cases sign
  case filled.filled s t =>
    obtain ⟨row, column⟩ := s
    obtain ⟨row', column'⟩ := t
    obtain rfl : row = row' := number
    obtain rfl : column = column' := Text.toString_inj rest
    rfl
  case inRow.inRow n v n' v' =>
    obtain rfl : n = n' := number
    obtain rfl : v = v' := String.toList_inj.1 rest
    rfl
  case inColumn.inColumn n v n' v' =>
    obtain rfl : n = n' := number
    obtain rfl : v = v' := String.toList_inj.1 rest
    rfl
  case inBox.inBox n v n' v' =>
    obtain rfl : n = n' := number
    obtain rfl : v = v' := String.toList_inj.1 rest
    rfl

/-- Different demands have different names. -/
theorem name_inj (same : d.name = e.name) : d = e := by
  have chars := congrArg String.toList same
  rw [toList_name, toList_name, List.cons.injEq] at chars
  obtain ⟨sign, tail⟩ := chars
  have separator : d.separator = e.separator := by
    cases d <;> cases e <;> first | rfl | cases sign
  have cut := congrArg (Text.cutAt d.separator) tail
  rw [← separator, Text.cutAt_append (d.separator_not_mem _),
    Text.cutAt_append (d.separator_not_mem _), Prod.mk.injEq] at cut
  exact eq_of_parts sign (Text.toString_inj cut.1) (Option.some.inj cut.2)

/-- The name of a demand is plain, when the value that is demanded is a symbol. -/
theorem plain_name (symbols : ∀ value ∈ d.value?, isSymbol value = true) : Plain d.name := by
  rw [Plain, name_eq, String.toList_append]
  refine ⟨List.append_ne_nil_of_left_ne_nil d.solid_front.1 _, fun x mem => ?_⟩
  rcases List.mem_append.1 mem with mem | mem
  · exact plainChar_front d x mem
  · cases d with
    | filled s => exact plainChar_toString _ x mem
    | inRow number value => exact plainChar_of_symbol (symbols value rfl) x mem
    | inColumn number value => exact plainChar_of_symbol (symbols value rfl) x mem
    | inBox number value => exact plainChar_of_symbol (symbols value rfl) x mem

end Demand

/-! ## Cells -/

/-- A cell as it occurs on a board: its numbers are positive and short enough, and its value is a
symbol. -/
structure Cell.Proper (c : Cell) : Prop where
  row : 0 ≤ c.square.row
  column : 0 ≤ c.square.column
  shortRow : c.square.row.toNat < Text.Integer.writeBound
  shortColumn : c.square.column.toNat < Text.Integer.writeBound
  symbol : isSymbol c.value = true

theorem toList_cellName (row : 0 ≤ c.square.row) (column : 0 ≤ c.square.column) :
    (cellName c).toList = 'r' :: (c.square.row.toNat.repr.toList ++
      'c' :: (c.square.column.toNat.repr.toList ++ '#' :: c.value.toList)) := by
  simp only [cellName, Text.toString_of_nonneg row, Text.toString_of_nonneg column,
    String.toList_append, List.append_assoc]
  rfl

/-! ### Names that are read -/

/-- The text has the form of a cell's name: two numerals of decimal digits of any script, and a value
that is not empty and holds no line feed. -/
structure IsCellName (name row column value : String) : Prop where
  parts : name.toList = 'r' :: (row.toList ++ 'c' :: (column.toList ++ '#' :: value.toList))
  row : row.toList ≠ [] ∧ ∀ x ∈ row.toList, Text.isDecimal x = true
  column : column.toList ≠ [] ∧ ∀ x ∈ column.toList, Text.isDecimal x = true
  value : value.toList ≠ [] ∧ '\n' ∉ value.toList

/-- Decimal digits before a stop are found. -/
theorem numeralBefore_append {stop : Char} {digits : List Char} (other : Text.isDecimal stop = false)
    (numeral : digits ≠ [] ∧ ∀ x ∈ digits, Text.isDecimal x = true) (rest : List Char) :
    numeralBefore stop (digits ++ stop :: rest) = some (digits, rest) := by
  obtain ⟨there, decimal⟩ := numeral
  have stops : ¬Text.isDecimal stop = true := by simp [other]
  have taken : (digits ++ stop :: rest).takeWhile Text.isDecimal = digits := by
    rw [List.takeWhile_append_of_pos decimal, List.takeWhile_cons_of_neg stops, List.append_nil]
  have left : (digits ++ stop :: rest).dropWhile Text.isDecimal = stop :: rest := by
    rw [List.dropWhile_append_of_pos decimal, List.dropWhile_cons_of_neg stops]
  unfold numeralBefore
  rw [taken, left]
  cases digits with
  | nil => exact absurd rfl there
  | cons d ds => simp

/-- What is found are decimal digits before a stop. -/
theorem of_numeralBefore {stop : Char} {cs digits rest : List Char}
    (found : numeralBefore stop cs = some (digits, rest)) :
    cs = digits ++ stop :: rest ∧ digits ≠ [] ∧ ∀ x ∈ digits, Text.isDecimal x = true := by
  unfold numeralBefore at found
  split at found
  · next d ds c rest' taken left =>
    split at found
    · next stops =>
      cases found
      have parts := List.takeWhile_append_dropWhile (p := Text.isDecimal) (l := cs)
      rw [left, stops] at parts
      refine ⟨parts.symm, ?_, fun x mem => List.all_eq_true.1 List.all_takeWhile x mem⟩
      rw [taken]
      exact List.cons_ne_nil _ _
    · cases found
  · cases found

/-- The parts of a cell's name are found. -/
theorem IsCellName.nameParts_eq {name row column value : String}
    (named : IsCellName name row column value) :
    nameParts name.toList = some (row.toList, column.toList, value.toList) := by
  obtain ⟨parts, row, column, there, oneLine⟩ := named
  have value : ¬(value.toList.isEmpty = true ∨ '\n' ∈ value.toList) := by
    rw [List.isEmpty_iff]
    exact fun h => h.elim there oneLine
  rw [parts]
  simp only [nameParts, numeralBefore_append (by decide : Text.isDecimal 'c' = false) row,
    numeralBefore_append (by decide : Text.isDecimal '#' = false) column, Option.bind_eq_bind,
    Option.bind_some, if_neg value]

/-- What is found are the parts of a cell's name. -/
theorem isCellName_of_nameParts {name : String} {row column value : List Char}
    (found : nameParts name.toList = some (row, column, value)) :
    IsCellName name (String.ofList row) (String.ofList column) (String.ofList value) := by
  unfold nameParts at found
  split at found
  · next cs whole =>
    obtain ⟨⟨row', cs'⟩, first, found⟩ := Option.bind_eq_some_iff.1 found
    obtain ⟨⟨column', value'⟩, second, found⟩ := Option.bind_eq_some_iff.1 found
    obtain ⟨parts, rows⟩ := of_numeralBefore first
    obtain ⟨parts', columns⟩ := of_numeralBefore second
    dsimp only at found
    split at found
    · cases found
    · next fits =>
      cases found
      rw [not_or, List.isEmpty_iff] at fits
      refine ⟨?_, ?_, ?_, ?_⟩
      all_goals simp only [String.toList_ofList]
      · rw [whole, parts, parts']
      · exact rows
      · exact columns
      · exact fits
  · cases found

/-- A text of the form of a cell's name is read by its numerals, -/
theorem IsCellName.readCellName_eq {name row column value : String}
    (named : IsCellName name row column value) : readCellName name = do
      let row ← (Text.Integer.read row).mapError .integer
      let column ← (Text.Integer.read column).mapError .integer
      return ⟨⟨row, column⟩, value⟩ := by
  unfold readCellName
  simp only [named.nameParts_eq, String.ofList_toList]

/-- and every other text is refused. -/
theorem readCellName_of_none {name : String}
    (none : ∀ row column value, ¬IsCellName name row column value) :
    readCellName name = .error (.badRowName name) := by
  unfold readCellName
  split
  · rfl
  · next found => exact absurd (isCellName_of_nameParts found) (none _ _ _)

/-! ### Cells that are read back -/

/-- A cell that is read back from its name: its numbers are not negative and short enough, and its
value is not empty and holds no line feed. -/
structure Cell.Named (c : Cell) : Prop where
  row : 0 ≤ c.square.row
  column : 0 ≤ c.square.column
  shortRow : c.square.row.toNat < Text.Integer.writeBound
  shortColumn : c.square.column.toNat < Text.Integer.writeBound
  value : c.value.toList ≠ [] ∧ '\n' ∉ c.value.toList

/-- A symbol is not empty and holds no line feed. -/
theorem value_of_symbol (symbol : isSymbol value = true) :
    value.toList ≠ [] ∧ '\n' ∉ value.toList := by
  obtain ⟨x, single, solid, -⟩ := symbol_toList symbol
  rw [single]
  refine ⟨List.cons_ne_nil _ _, fun mem => ?_⟩
  rw [← List.mem_singleton.1 mem] at solid
  exact absurd solid (by decide)

theorem Cell.Proper.named (proper : c.Proper) : c.Named :=
  ⟨proper.row, proper.column, proper.shortRow, proper.shortColumn, value_of_symbol proper.symbol⟩

/-- The name of a cell has the form of one. -/
theorem isCellName_cellName (row : 0 ≤ c.square.row) (column : 0 ≤ c.square.column)
    (value : c.value.toList ≠ [] ∧ '\n' ∉ c.value.toList) :
    IsCellName (cellName c) c.square.row.toNat.repr c.square.column.toNat.repr c.value where
  parts := toList_cellName row column
  row := ⟨Text.repr_ne_nil _, fun _ => Text.Integer.isDecimal_of_mem_repr⟩
  column := ⟨Text.repr_ne_nil _, fun _ => Text.Integer.isDecimal_of_mem_repr⟩
  value := value

/-- A cell is read back from its name, -/
theorem readCellName_of_named (named : c.Named) : readCellName (cellName c) = .ok c := by
  have row := Text.Integer.read_repr named.shortRow
  have column := Text.Integer.read_repr named.shortColumn
  rw [Int.toNat_of_nonneg named.row] at row
  rw [Int.toNat_of_nonneg named.column] at column
  rw [(isCellName_cellName named.row named.column named.value).readCellName_eq, row, column]
  rfl

/-- in particular on a board. -/
theorem readCellName_cellName (proper : c.Proper) : readCellName (cellName c) = .ok c :=
  readCellName_of_named proper.named

/-- A cell is not read when the number of its row is too long. -/
theorem readCellName_of_long (row : 0 ≤ c.square.row) (column : 0 ≤ c.square.column)
    (symbol : isSymbol c.value = true)
    (long : Text.Integer.writeBound ≤ c.square.row.toNat) :
    ∃ fault, readCellName (cellName c) = .error fault := by
  rw [(isCellName_cellName row column (value_of_symbol symbol)).readCellName_eq,
    Text.Integer.read_repr_of_le long]
  exact ⟨_, rfl⟩

/-- The name of a cell is plain. -/
theorem plain_cellName (proper : c.Proper) : Plain (cellName c) := by
  rw [Plain, toList_cellName proper.row proper.column]
  refine ⟨List.cons_ne_nil _ _, fun x mem => ?_⟩
  simp only [List.mem_cons, List.mem_append] at mem
  rcases mem with rfl | mem | rfl | mem | rfl | mem
  · decide
  · exact plainChar_repr _ x mem
  · decide
  · exact plainChar_repr _ x mem
  · decide
  · exact plainChar_of_symbol proper.symbol x mem

end DancingLinks.Sudoku
