import DancingLinks.Proofs.Queens.Names
import DancingLinks.Proofs.Sudoku.Names

/-!
# Names that are decoded

The names of squares and of cells are read by one scheme (`Scheme`): a text of the right form is read by
the two numerals in it, and every other text is refused as bad input. The form asks for digits only, but
not every text of digits can be converted. So a text of the form is decoded when its numerals can be
converted, and then it is decoded again from the name that is written for it; otherwise the conversion
fails, which is another fault than that of bad input (`names_decoded`). There are such texts among the names
of squares and of cells (`names_not_refused`).
-/

namespace DancingLinks

open Text.Integer (Convertible decimalValue refusal)
open Queens (Named readNumeral)

variable {α : Type} {read : String → Except Fault α} {write : α → String} {square : α → Square}
  {form : String → String → String → (Square → α) → Prop} {name row column : String}
  {make : Square → α} {s : Square}

/-! ## Numerals in names -/

/-- The numbers of a square can be written. -/
def Square.Writable (s : Square) : Prop :=
  Text.Integer.checkWritable s.row = .ok () ∧ Text.Integer.checkWritable s.column = .ok ()

/-- The square that two numerals give. -/
def squareOf (row column : String) : Square := ⟨decimalValue row, decimalValue column⟩

/-- Numerals that can be converted give a square with a name. -/
theorem named_squareOf (first : Convertible row) (second : Convertible column) :
    Named (squareOf row column) where
  row := Int.natCast_nonneg _
  column := Int.natCast_nonneg _
  shortRow := Text.Integer.decimalValue_lt first
  shortColumn := Text.Integer.decimalValue_lt second

/-- A square with a name can be written. -/
theorem writable_of_named (named : Named s) : s.Writable := by
  have written : ∀ {n : Int}, 0 ≤ n → n.toNat < Text.Integer.writeBound →
      Text.Integer.checkWritable n = .ok () := by
    intro n nonneg short
    exact if_pos (by omega)
  exact ⟨written named.row named.shortRow, written named.column named.shortColumn⟩

theorem readNumeral_of_convertible (there : row.toList ≠ []) (convertible : Convertible row) :
    readNumeral row = .ok (decimalValue row) := by
  rw [readNumeral, Text.Integer.read_of_convertible there convertible]
  rfl

theorem readNumeral_of_not_convertible (digits : ∀ x ∈ row.toList, Text.isDigitSign x = true)
    (refused : ¬Convertible row) : readNumeral row = .error (.integer (refusal row)) := by
  rw [readNumeral, Text.Integer.read_of_not_convertible digits refused]
  rfl

/-! ## Schemes of names -/

/-- How names are read and written for what stands on a square. The form of a name says which texts are
the numerals of the row and of the column, and what is made of the square that they give. -/
structure Scheme (read : String → Except Fault α) (write : α → String) (square : α → Square)
    (form : String → String → String → (Square → α) → Prop) : Prop where
  /-- A text without the form is refused. -/
  refused : ∀ {name}, (∀ row column make, ¬form name row column make) →
    read name = .error (.badRowName name)
  /-- A text of the form is read by its numerals, the row first, -/
  reads : ∀ {name row column make}, form name row column make → read name = do
    let row ← readNumeral row
    let column ← readNumeral column
    return make ⟨row, column⟩
  /-- which consist of digits of any kind. -/
  row : ∀ {name row column make}, form name row column make →
    row.toList ≠ [] ∧ ∀ x ∈ row.toList, Text.isDigitSign x = true
  column : ∀ {name row column make}, form name row column make →
    column.toList ≠ [] ∧ ∀ x ∈ column.toList, Text.isDigitSign x = true
  /-- What is made of a square stands on it, -/
  square_make : ∀ {name row column make s}, form name row column make → square (make s) = s
  /-- and is read back from its name. -/
  read_write : ∀ {name row column make s}, form name row column make → Named s →
    read (write (make s)) = .ok (make s)

namespace Scheme

/-- A text of the form is decoded when its numerals can be converted. -/
theorem decoded (scheme : Scheme read write square form) (formed : form name row column make)
    (first : Convertible row) (second : Convertible column) :
    read name = .ok (make (squareOf row column)) := by
  rw [scheme.reads formed, readNumeral_of_convertible (scheme.row formed).1 first,
    readNumeral_of_convertible (scheme.column formed).1 second]
  rfl

/-- Otherwise the conversion of the row fails, -/
theorem rowFails (scheme : Scheme read write square form) (formed : form name row column make)
    (first : ¬Convertible row) : read name = .error (.integer (refusal row)) := by
  rw [scheme.reads formed, readNumeral_of_not_convertible (scheme.row formed).2 first]
  rfl

/-- or that of the column. -/
theorem columnFails (scheme : Scheme read write square form) (formed : form name row column make)
    (first : Convertible row) (second : ¬Convertible column) :
    read name = .error (.integer (refusal column)) := by
  rw [scheme.reads formed, readNumeral_of_convertible (scheme.row formed).1 first,
    readNumeral_of_not_convertible (scheme.column formed).2 second]
  rfl

/-- A text is refused, or decoded, or the conversion of its numerals fails. -/
theorem cases (scheme : Scheme read write square form) (name : String) :
    read name = .error (.badRowName name) ∨
    (∃ row column make, form name row column make ∧ Convertible row ∧ Convertible column ∧
      read name = .ok (make (squareOf row column))) ∨
    ∃ row column make failure, form name row column make ∧ ¬(Convertible row ∧ Convertible column) ∧
      read name = .error (.integer failure) := by
  by_cases formed : ∃ row column make, form name row column make
  · obtain ⟨row, column, make, formed⟩ := formed
    right
    by_cases first : Convertible row
    · by_cases second : Convertible column
      · exact .inl ⟨row, column, make, formed, first, second, scheme.decoded formed first second⟩
      · exact .inr ⟨row, column, make, _, formed, fun both => second both.2,
          scheme.columnFails formed first second⟩
    · exact .inr ⟨row, column, make, _, formed, fun both => first both.1,
        scheme.rowFails formed first⟩
  · left
    refine scheme.refused ?_
    intro row column make made
    exact formed ⟨row, column, make, made⟩

/-- There is another fault than that of bad input exactly when a numeral can not be converted. -/
theorem fails_iff (scheme : Scheme read write square form) (name : String) :
    (∃ fault, read name = .error fault ∧ fault.kind ≠ .configuration) ↔
      ∃ row column make, form name row column make ∧ ¬(Convertible row ∧ Convertible column) := by
  constructor
  · rintro ⟨fault, failed, kind⟩
    rcases scheme.cases name with
      refused | ⟨_, _, _, _, _, _, decoded⟩ | ⟨_, _, _, _, formed, fails, _⟩
    · rw [refused] at failed
      cases failed
      exact absurd rfl kind
    · rw [decoded] at failed
      cases failed
    · exact ⟨_, _, _, formed, fails⟩
  · rintro ⟨row, column, make, formed, fails⟩
    by_cases first : Convertible row
    · have second : ¬Convertible column := fun second => fails ⟨first, second⟩
      exact ⟨_, scheme.columnFails formed first second, nofun⟩
    · exact ⟨_, scheme.rowFails formed first, nofun⟩

/-- What is decoded can be written, and is decoded again from what is written. -/
theorem again (scheme : Scheme read write square form) {a : α} (found : read name = .ok a) :
    (square a).Writable ∧ read (write a) = .ok a := by
  rcases scheme.cases name with
    refused | ⟨_, _, _, formed, first, second, decoded⟩ | ⟨_, _, _, _, _, _, fails⟩
  · rw [refused] at found
    cases found
  · rw [decoded] at found
    cases found
    have named := named_squareOf first second
    rw [scheme.square_make formed]
    exact ⟨writable_of_named named, scheme.read_write formed named⟩
  · rw [fails] at found
    cases found

end Scheme

/-! ## Squares and cells -/

/-- The form of a square's name. The square is all that is named. -/
def SquareForm (name row column : String) (make : Square → Square) : Prop :=
  Queens.IsSquareName name row column ∧ make = id

/-- The form of a cell's name. The cell has the value that is named. -/
def CellForm (name row column : String) (make : Square → Sudoku.Cell) : Prop :=
  ∃ value, Sudoku.IsCellName name row column value ∧ make = (⟨·, value⟩)

/-- Squares are named by the scheme. -/
theorem squareScheme : Scheme Queens.readSquareName Queens.squareName id SquareForm where
  refused none := Queens.readSquareName_of_none fun row column formed =>
    none row column id ⟨formed, rfl⟩
  reads := by
    rintro name row column make ⟨formed, rfl⟩
    exact formed.readSquareName_eq
  row formed := formed.1.row
  column formed := formed.1.column
  square_make := by
    rintro name row column make s ⟨-, rfl⟩
    rfl
  read_write := by
    rintro name row column make s ⟨-, rfl⟩ named
    exact Queens.readSquareName_squareName named

/-- So are cells, the numerals of which consist of decimal digits. -/
theorem cellScheme : Scheme Sudoku.readCellName Sudoku.cellName Sudoku.Cell.square CellForm where
  refused none := Sudoku.readCellName_of_none fun row column value formed =>
    none row column _ ⟨value, formed, rfl⟩
  reads := by
    rintro name row column make ⟨value, formed, rfl⟩
    exact formed.readCellName_eq
  row := by
    rintro name row column make ⟨value, formed, -⟩
    exact ⟨formed.row.1, fun x mem => Text.isDigitSign_of_isDecimal (formed.row.2 x mem)⟩
  column := by
    rintro name row column make ⟨value, formed, -⟩
    exact ⟨formed.column.1, fun x mem => Text.isDigitSign_of_isDecimal (formed.column.2 x mem)⟩
  square_make := by
    rintro name row column make s ⟨value, -, rfl⟩
    rfl
  read_write := by
    rintro name row column make s ⟨value, formed, rfl⟩ ⟨row, column, shortRow, shortColumn⟩
    exact Sudoku.readCellName_of_named ⟨row, column, shortRow, shortColumn, formed.value⟩

/-! ## Names -/

/-- What becomes of a text that is read as a name. -/
structure Decodes (read : String → Except Fault α) (write : α → String) (square : α → Square)
    (form : String → String → String → (Square → α) → Prop) (name : String) : Prop where
  /-- Without the form it is refused as a bad name. -/
  refused : (∀ row column make, ¬form name row column make) → read name = .error (.badRowName name)
  /-- With the form and numerals that can be converted it is decoded. -/
  decoded : ∀ {row column make}, form name row column make → Convertible row → Convertible column →
    read name = .ok (make (squareOf row column))
  /-- Otherwise the conversion of the first numeral for which this is not possible fails. -/
  rowFails : ∀ {row column make}, form name row column make → ¬Convertible row →
    read name = .error (.integer (refusal row))
  columnFails : ∀ {row column make}, form name row column make → Convertible row →
    ¬Convertible column → read name = .error (.integer (refusal column))
  /-- Only then there is another fault than that of bad input. -/
  fails_iff : (∃ fault, read name = .error fault ∧ fault.kind ≠ .configuration) ↔
    ∃ row column make, form name row column make ∧ ¬(Convertible row ∧ Convertible column)
  /-- What is decoded can be written, and is decoded again from what is written. -/
  again : ∀ {a}, read name = .ok a → (square a).Writable ∧ read (write a) = .ok a

/-- By a scheme every text is decoded or fails. -/
theorem Scheme.decodes (scheme : Scheme read write square form) (name : String) :
    Decodes read write square form name where
  refused := scheme.refused
  decoded := scheme.decoded
  rowFails := scheme.rowFails
  columnFails := scheme.columnFails
  fails_iff := scheme.fails_iff name
  again := scheme.again

/-- As a square and as a cell, every text is decoded, and decoded again from the name that is written for
it, or it is refused as a bad name, unless it has the form of a name and a numeral in it can not be
converted: one with too many digits or, in the name of a square, with a digit that is not decimal. -/
theorem names_decoded (name : String) :
    Decodes Queens.readSquareName Queens.squareName id SquareForm name ∧
    Decodes Sudoku.readCellName Sudoku.cellName Sudoku.Cell.square CellForm name :=
  ⟨squareScheme.decodes name, cellScheme.decodes name⟩

/-- More digits than are converted. -/
def manyDigits : String := String.ofList (List.replicate 4301 '1')

theorem toList_manyDigits : manyDigits.toList = List.replicate 4301 '1' := String.toList_ofList

/-- They are all decimal, -/
theorem isDecimal_of_mem_manyDigits {x : Char} (mem : x ∈ manyDigits.toList) :
    Text.isDecimal x = true := by
  rw [toList_manyDigits] at mem
  rw [List.eq_of_mem_replicate mem]
  decide

/-- so it is only their number that is refused. -/
theorem refusal_manyDigits : refusal manyDigits = .tooLong 4301 := by
  have whole : manyDigits.toList.takeWhile Text.isDecimal = manyDigits.toList :=
    List.takeWhile_eq_self_iff.2 fun x => isDecimal_of_mem_manyDigits
  rw [refusal, whole, toList_manyDigits, List.length_replicate]
  rfl

/-- Texts of the form of a name that are neither decoded nor refused as bad input: a superscript in place
of a column, and too many digits in place of a row. -/
theorem names_not_refused :
    Queens.readSquareName "1.²" = .error (.integer (.malformed "²")) ∧
    Sudoku.readCellName ("r" ++ manyDigits ++ "c1#1") = .error (.integer (.tooLong 4301)) ∧
    (∀ failure, (Fault.integer failure).kind ≠ .configuration) := by
  have one : ∀ x ∈ "1".toList, Text.isDecimal x = true := List.all_eq_true.1 (by decide)
  refine ⟨?_, ?_, nofun⟩
  · have signs : ∀ x ∈ "1".toList, Text.isDigitSign x = true := List.all_eq_true.1 (by decide)
    have squared : ∀ x ∈ "²".toList, Text.isDigitSign x = true :=
      List.all_eq_true.1 (by decide +kernel)
    have formed : SquareForm "1.²" "1" "²" id :=
      ⟨⟨rfl, ⟨by decide, signs⟩, ⟨by decide, squared⟩⟩, rfl⟩
    have first : Convertible "1" := ⟨one, by decide⟩
    have second : ¬Convertible "²" := fun convertible =>
      absurd (convertible.decimal '²' (by decide)) (by decide +kernel)
    exact squareScheme.columnFails formed first second
  · have parts : ∀ row : String, ("r" ++ row ++ "c1#1").toList
        = 'r' :: (row.toList ++ 'c' :: ("1".toList ++ '#' :: "1".toList)) := by
      intro row
      rw [String.toList_append, String.toList_append, List.append_assoc]
      rfl
    have there : manyDigits.toList ≠ [] := by
      rw [toList_manyDigits, Ne, List.replicate_eq_nil_iff]
      decide
    have formed : CellForm ("r" ++ manyDigits ++ "c1#1") manyDigits "1" (⟨·, "1"⟩) :=
      ⟨"1", ⟨parts _, ⟨there, fun _ => isDecimal_of_mem_manyDigits⟩, ⟨by decide, one⟩,
        ⟨by decide, by decide⟩⟩, rfl⟩
    have long : ¬Convertible manyDigits := by
      rintro ⟨-, short⟩
      rw [toList_manyDigits, List.length_replicate] at short
      exact absurd short (by decide)
    have fails := cellScheme.rowFails formed long
    rwa [refusal_manyDigits] at fails

end DancingLinks
