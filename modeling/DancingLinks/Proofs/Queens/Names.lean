import DancingLinks.Proofs.Matrix.Rendering
import DancingLinks.Queens.Encoding

/-!
# The names of squares and lines

Lines whose numbers are not negative have different names (`Line.name_inj`). A text that has the form of a
square's name (`IsSquareName`) is read by its two numerals (`IsSquareName.readSquareName_eq`), and every
other text is refused (`readSquareName_of_none`). So a square whose numbers are not negative and short
enough is read back from its name (`readSquareName_squareName`), and one whose row has a number that is too
long is not (`readSquareName_of_long`). The names are plain (`Line.plain_name`, `plain_squareName`), so they
survive the text form of a matrix.
-/

namespace DancingLinks.Queens

open DancingLinks.Matrix (Plain plainChar_repr)

variable {line other : Line} {s : Square}

/-! ## Lines -/

namespace Line

/-- The sign of a kind of line. -/
def sign : Line → Char
  | row _ => 'R'
  | column _ => 'C'
  | rising _ => 'A'
  | falling _ => 'B'

/-- A name is made of the sign and the number. -/
theorem toList_name (nonneg : 0 ≤ line.number) :
    line.name.toList = line.sign :: line.number.toNat.repr.toList := by
  cases line with
  | row number | column number | rising number | falling number =>
    have numeral : toString number = number.toNat.repr := Text.toString_of_nonneg nonneg
    simp only [name, numeral, String.toList_append]
    rfl

/-- The sign and the number tell a line. -/
theorem eq_of_sign (sign : line.sign = other.sign) (number : line.number = other.number) :
    line = other := by
  cases line <;> cases other <;> cases sign <;> cases number <;> rfl

/-- Different lines have different names. -/
theorem name_inj (nonneg : 0 ≤ line.number) (nonneg' : 0 ≤ other.number)
    (same : line.name = other.name) : line = other := by
  have chars := congrArg String.toList same
  rw [toList_name nonneg, toList_name nonneg', List.cons.injEq] at chars
  obtain ⟨sign, numeral⟩ := chars
  have number := Text.repr_inj numeral
  exact eq_of_sign sign (by omega)

/-- The name of a line is plain. -/
theorem plain_name (nonneg : 0 ≤ line.number) : Plain line.name := by
  rw [Plain, toList_name nonneg]
  refine ⟨List.cons_ne_nil _ _, List.forall_mem_cons.2 ⟨?_, plainChar_repr _⟩⟩
  cases line <;> simp only [sign] <;> decide

end Line

/-! ## Squares -/

/-- A square whose numbers are not negative and have numerals that are short enough to be read. -/
structure Named (s : Square) : Prop where
  row : 0 ≤ s.row
  column : 0 ≤ s.column
  shortRow : s.row.toNat < Text.Integer.writeBound
  shortColumn : s.column.toNat < Text.Integer.writeBound

theorem toList_squareName (row : 0 ≤ s.row) (column : 0 ≤ s.column) :
    (squareName s).toList = s.row.toNat.repr.toList ++ '.' :: s.column.toNat.repr.toList := by
  simp only [squareName, Text.toString_of_nonneg row, Text.toString_of_nonneg column,
    String.toList_append, List.append_assoc]
  rfl

/-- The name of a square is cut between its numerals. -/
theorem cut_squareName (row : 0 ≤ s.row) (column : 0 ≤ s.column) :
    Text.cut (squareName s) '.' = (s.row.toNat.repr, some s.column.toNat.repr) :=
  Text.CutsInto.cut_eq ⟨toList_squareName row column, Text.not_mem_repr (by decide)⟩

/-- Different squares have different names. -/
theorem squareName_inj {t : Square} (row : 0 ≤ s.row) (column : 0 ≤ s.column) (row' : 0 ≤ t.row)
    (column' : 0 ≤ t.column) (same : squareName s = squareName t) : s = t := by
  have parts := cut_squareName row column
  rw [same, cut_squareName row' column', Prod.mk.injEq, Option.some.injEq] at parts
  have rows := Text.repr_inj (congrArg String.toList parts.1)
  have columns := Text.repr_inj (congrArg String.toList parts.2)
  rw [Square.mk.injEq]
  omega

/-! ### Names that are read -/

/-- The text has the form of a square's name: two texts of digits of any kind with a dot between
them. -/
structure IsSquareName (name row column : String) : Prop where
  parts : name.toList = row.toList ++ '.' :: column.toList
  row : row.toList ≠ [] ∧ ∀ x ∈ row.toList, Text.isDigitSign x = true
  column : column.toList ≠ [] ∧ ∀ x ∈ column.toList, Text.isDigitSign x = true

/-- A numeral is not empty and consists of digits of any kind. -/
theorem isNumeral_iff {text : String} :
    isNumeral text = true ↔ text.toList ≠ [] ∧ ∀ x ∈ text.toList, Text.isDigitSign x = true := by
  have empty : text.isEmpty = true ↔ text.toList = [] := by
    rw [String.isEmpty_iff, ← String.toList_inj, String.toList_empty]
  rw [isNumeral, Bool.and_eq_true, Bool.not_eq_true', ← Bool.not_eq_true, empty, List.all_eq_true]

/-- A text of the form of a square's name is read by its numerals, -/
theorem IsSquareName.readSquareName_eq {name row column : String}
    (named : IsSquareName name row column) : readSquareName name = do
      return ⟨← readNumeral row, ← readNumeral column⟩ := by
  obtain ⟨parts, rows, columns⟩ := named
  have free : '.' ∉ row.toList := fun mem => absurd (rows.2 _ mem) (by decide +kernel)
  have cut : Text.cut name '.' = (row, some column) := Text.CutsInto.cut_eq ⟨parts, free⟩
  simp only [readSquareName, cut, isNumeral_iff.2 rows, isNumeral_iff.2 columns, Bool.and_self,
    if_true]

/-- and every other text is refused. -/
theorem readSquareName_of_none {name : String} (none : ∀ row column, ¬IsSquareName name row column) :
    readSquareName name = .error (.badRowName name) := by
  rcases Text.cut_cases name '.' with free | ⟨row, column, cuts⟩
  · simp only [readSquareName, Text.cut_of_not_mem free]
  · have refused : ¬(isNumeral row && isNumeral column) = true := by
      rw [Bool.and_eq_true, isNumeral_iff, isNumeral_iff]
      exact fun ⟨rows, columns⟩ => none row column ⟨cuts.parts, rows, columns⟩
    simp only [readSquareName, cuts.cut_eq, if_neg refused]

/-! ### Squares that are read back -/

/-- A number that is short enough is read back. -/
theorem readNumeral_repr {i : Int} (nonneg : 0 ≤ i) (short : i.toNat < Text.Integer.writeBound) :
    readNumeral i.toNat.repr = .ok i := by
  rw [readNumeral, Text.Integer.read_repr short, Int.toNat_of_nonneg nonneg]
  rfl

/-- A numeral of a natural number is not empty and consists of digits. -/
theorem digits_repr (n : Nat) :
    n.repr.toList ≠ [] ∧ ∀ x ∈ n.repr.toList, Text.isDigitSign x = true :=
  ⟨Text.repr_ne_nil n, fun _ mem => Text.isDigitSign_of_isDecimal (Text.Integer.isDecimal_of_mem_repr mem)⟩

/-- The name of a square has the form of one. -/
theorem isSquareName_squareName (row : 0 ≤ s.row) (column : 0 ≤ s.column) :
    IsSquareName (squareName s) s.row.toNat.repr s.column.toNat.repr :=
  ⟨toList_squareName row column, digits_repr _, digits_repr _⟩

/-- A square is read back from its name. -/
theorem readSquareName_squareName (named : Named s) : readSquareName (squareName s) = .ok s := by
  have row := readNumeral_repr named.row named.shortRow
  have column := readNumeral_repr named.column named.shortColumn
  rw [(isSquareName_squareName named.row named.column).readSquareName_eq, row, column]
  rfl

/-- A square is not read when the number of its row is too long. -/
theorem readSquareName_of_long (row : 0 ≤ s.row) (column : 0 ≤ s.column)
    (long : Text.Integer.writeBound ≤ s.row.toNat) :
    ∃ fault, readSquareName (squareName s) = .error fault := by
  rw [(isSquareName_squareName row column).readSquareName_eq, readNumeral,
    Text.Integer.read_repr_of_le long]
  exact ⟨_, rfl⟩

/-- The name of a square is plain. -/
theorem plain_squareName (row : 0 ≤ s.row) (column : 0 ≤ s.column) : Plain (squareName s) := by
  rw [Plain, toList_squareName row column]
  refine ⟨by simp, fun x mem => ?_⟩
  rcases List.mem_append.1 mem with mem | mem
  · exact plainChar_repr _ x mem
  · rcases List.mem_cons.1 mem with rfl | mem
    · decide
    · exact plainChar_repr _ x mem

end DancingLinks.Queens
