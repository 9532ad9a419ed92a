import DancingLinks.Proofs.Matrix.Grammar
import DancingLinks.Proofs.Matrix.Rendering
import DancingLinks.Search

/-!
# Rows of numbers as rows of names

A row of numbers says the same as a row that lists the columns with a positive number. `listing` writes
every row of some lines in the second way. The name of the row is the one it had before, and stays it:
a name is trimmed already and holds no colon, however it came about (`rowName_rowName`). So both kinds of
lines become the same matrix, to the last node (`ofConstraintLines_listing`).
-/

namespace DancingLinks

open DancingLinks.Text (Solid)

namespace Matrix

variable {m : Matrix} {header line : String} {index : Nat}
  {columns values uses lines rows : List String}

/-! ## Writing rows -/

/-- The value is a number above zero. -/
def isPositive (value : String) : Bool :=
  match Text.Integer.read value with
  | .ok n => 0 < n
  | .error _ => false

/-- The columns with a positive value, in the order of the columns. -/
def positiveNames (columns values : List String) : List String :=
  ((columns.zip values).filter (isPositive ·.2)).map Prod.fst

/-- The row on a line with some number, its columns listed by their names. -/
def listedRow (columns : List String) (line : String × Nat) : String :=
  rowText (rowName line.2 line.1) (positiveNames columns (rowValues line.1))

/-- The header as it is, and the columns of every row listed by their names. Blank lines are left out. -/
def listing (lines : List String) : List String :=
  match lines.filter (!Text.isBlankText ·) with
  | [] => []
  | header :: rows => header :: (rows.zipIdx 1).map (listedRow (declaredColumns lines))

/-! ## Reading them again -/

/-- A row of numbers uses the columns with a positive one. -/
theorem Flags.eq_positiveNames (flags : Flags columns values uses) :
    uses = positiveNames columns values := by
  obtain ⟨numbers, numerals, -, rfl⟩ := flags
  induction numerals generalizing columns with
  | nil => simp [positiveNames]
  | @cons value n values numbers numeral _ ih =>
    cases columns with
    | nil => rfl
    | cons name columns =>
      have positive : isPositive value = decide (0 < n) := by
        rw [isPositive, Text.Integer.read_eq_ok_iff.2 numeral]
        simp only [Int.natCast_pos]
      have rest := @ih columns
      unfold positiveNames at rest ⊢
      by_cases above : 0 < n
      · simp [above, positive, rest]
      · simp [above, positive, rest]

/-- The columns of a header are words. -/
theorem solid_of_mem_declaredColumns {name : String} (mem : name ∈ declaredColumns lines) :
    Solid name.toList := by
  have word : ∀ {text : String}, name ∈ Text.words text → Solid name.toList := by
    intro text mem
    obtain ⟨word, there, rfl⟩ := List.mem_map.1 mem
    rw [String.toList_ofList]
    exact Text.words_of_mem there
  simp only [declaredColumns, columnNames, List.mem_append] at mem
  rcases mem with mem | mem
  · exact word mem
  · cases cut : (Text.cut ((lines.find? (!Text.isBlankText ·)).getD "") columnSeparator).2 with
    | none =>
      rw [cut] at mem
      cases mem
    | some after =>
      rw [cut] at mem
      exact word mem

/-- The name of a row without one is plain. -/
theorem plain_number (i : Int) : Plain s!"R{i}" := by
  have chars : s!"R{i}".toList = 'R' :: (toString i).toList := by
    simp only [String.toList_append]
    rfl
  rw [Plain, chars]
  exact ⟨List.cons_ne_nil _ _, List.forall_mem_cons.2 ⟨by decide, plainChar_toString i⟩⟩

/-- The name of a row holds no separator, -/
theorem not_mem_rowName (i : Int) (line : String) : nameSeparator ∉ (rowName i line).toList := by
  rcases Text.cut_cases line nameSeparator with free | ⟨before, after, cuts⟩
  · simp only [rowName, Text.cut_of_not_mem free]
    exact (plain_number i).not_mem
  · simp only [rowName, cuts.cut_eq]
    obtain ⟨⟨front, back, eq, -⟩, -, -⟩ := Text.trims_iff.2 (rfl : Text.trim before = _)
    intro mem
    exact cuts.first (eq ▸ List.mem_append_left _ (List.mem_append_right _ mem))

/-- and has no blanks to trim off. -/
theorem trim_rowName (i : Int) (line : String) : Text.trim (rowName i line) = rowName i line := by
  unfold rowName
  split
  · exact Text.trim_trim _
  · rw [Text.trim, Text.trimChars_of_solid (plain_number i).solid, String.ofList_toList]

/-- A row whose columns are listed has the name that it had, -/
theorem rowName_listedRow (i : Int) (columns : List String) (row : String × Nat) :
    rowName i (listedRow columns row) = rowName row.2 row.1 := by
  rw [listedRow, rowName_rowText_eq (not_mem_rowName _ _), trim_rowName]

/-- and the columns that are listed. -/
theorem rowValues_listedRow (solid : ∀ name ∈ columns, Solid name.toList) (row : String × Nat) :
    rowValues (listedRow columns row) = positiveNames columns (rowValues row.1) := by
  rw [listedRow, rowValues_rowText_eq (not_mem_rowName _ _), ← Text.words_intercalate_eq]
  refine Text.words_intercalate fun name mem => solid name ?_
  obtain ⟨pair, there, rfl⟩ := List.mem_map.1 mem
  exact (List.of_mem_zip (List.mem_filter.1 there).1).1

/-! ## The same matrix -/

/-- Rows of numbers, and the same rows with their columns listed, add the same. -/
theorem addLines_listedRow (solid : ∀ name ∈ columns, Solid name.toList) {m' : Matrix}
    (added : m.addLines (fun line => flaggedColumns (rowValues line) columns) index lines = .ok m') :
    m.addLines (fun line => .ok (rowValues line)) index ((lines.zipIdx index).map (listedRow columns))
      = .ok m' := by
  induction lines generalizing m index with
  | nil => exact added
  | cons line lines ih =>
    obtain ⟨uses, flagged, added⟩ := ok_of_bind added
    obtain ⟨next, row, added⟩ := ok_of_bind added
    rw [(flaggedColumns_eq_ok_iff.1 flagged).eq_positiveNames] at row
    rw [List.zipIdx_cons, List.map_cons, addLines]
    simp only [rowName_listedRow, rowValues_listedRow solid, row, bind, Except.bind]
    exact ih added

/-- Lines of numbers and the lines that list the same columns become the same matrix, so all that is
found in it is the same. -/
theorem ofConstraintLines_listing (made : ofBooleanLines lines = .ok m) :
    ofConstraintLines (listing lines) = .ok m ∧
      ∀ o : Options, (ofConstraintLines (listing lines)).map (·.solve o) = .ok (m.solve o) := by
  have same : ofConstraintLines (listing lines) = .ok m := by
    obtain ⟨header, body, -, solid, any, -⟩ := of_ofLines made
    have mem : header ∈ lines.filter (!Text.isBlankText ·) := solid ▸ List.mem_cons_self
    have there : Text.isBlankText header = false := by simpa using (List.mem_filter.1 mem).2
    have texts : (listing lines).filter (!Text.isBlankText ·)
        = header :: (body.zipIdx 1).map (listedRow (declaredColumns lines)) := by
      rw [listing, solid]
      exact solid_rowTexts there _ _ _
    -- Both kinds of lines have the same header, so the rows are added to the same matrix.
    have whole : ofBooleanLines lines
        = ofLines (fun line => flaggedColumns (rowValues line) (declaredColumns lines)) lines := rfl
    rw [whole, ofLines_eq solid any] at made
    obtain ⟨empty, columns, added⟩ := ok_of_bind made
    rw [ofConstraintLines, ofLines_eq texts (by simpa using any), columns]
    exact addLines_listedRow (fun name => solid_of_mem_declaredColumns) added
  exact ⟨same, fun o => by rw [same]; rfl⟩

/-- Lines with separators in the names of columns, blanks in the name of a row, and a row that uses no
column. -/
def flaggedSample : List String :=
  ["", "a:b c | d|e", "1 0 2", "  ", " x y :0 1 0", ":0 -0 0", "0 0 1"]

theorem ofConstraintLines_listing_sample :
    listing flaggedSample = ["a:b c | d|e", "R1: a:b d|e", "x y: c", ": ", "R4: d|e"] ∧
      ∃ m, ofBooleanLines flaggedSample = .ok m ∧
        ofConstraintLines ["a:b c | d|e", "R1: a:b d|e", "x y: c", ": ", "R4: d|e"] = .ok m := by
  have lists : listing flaggedSample
      = ["a:b c | d|e", "R1: a:b d|e", "x y: c", ": ", "R4: d|e"] := by decide +kernel
  obtain ⟨m, made⟩ := exists_ok_of_isOk (x := ofBooleanLines flaggedSample) (by decide +kernel)
  exact ⟨lists, m, made, lists ▸ (ofConstraintLines_listing made).1⟩

end Matrix

end DancingLinks
