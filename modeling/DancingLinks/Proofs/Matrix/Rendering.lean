import DancingLinks.Matrix.Encoding
import DancingLinks.Proofs.Text.Grammar

/-!
# The text form is read back

A name is `Plain` when it is not empty and holds no blank and none of the separators of the text
form. Plain names that are joined by blanks are read back as the columns of a header
(`columnNames_intercalate`), and as the columns of a row (`rowValues_rowText`), whose name is read
back too (`rowName_rowText`).
-/

namespace DancingLinks

open Text (Solid)

variable {x : Char} {name text : String} {names uses : List String} {i : Int}

/-! ## Joined words -/

namespace Text

/-- What stands in joined words stands in a word, or between the words. -/
theorem mem_intercalate (mem : x ∈ (" ".intercalate names).toList) :
    x = ' ' ∨ ∃ name ∈ names, x ∈ name.toList := by
  rw [String.toList_intercalate] at mem
  induction names with
  | nil => exact absurd mem List.not_mem_nil
  | cons name names ih =>
    cases names with
    | nil => exact .inr ⟨name, List.mem_cons_self, by simpa using mem⟩
    | cons next names =>
      rw [List.map_cons, List.map_cons, List.intercalate_cons_cons, List.mem_append,
        List.mem_append] at mem
      rcases mem with (mem | mem) | mem
      · exact .inr ⟨name, List.mem_cons_self, mem⟩
      · exact .inl (List.mem_singleton.1 mem)
      · rcases ih mem with blank | ⟨other, there, mem⟩
        · exact .inl blank
        · exact .inr ⟨other, List.mem_cons_of_mem _ there, mem⟩

/-- Words joined by blanks are read back although a blank stands before them. -/
theorem words_blank_intercalate (solid : ∀ name ∈ names, Solid name.toList) :
    words (" " ++ " ".intercalate names) = names := by
  rw [words_blank_append]
  exact words_intercalate solid

/-- Words joined by blanks are read back although a blank stands after them. -/
theorem words_intercalate_blank (solid : ∀ name ∈ names, Solid name.toList) :
    words (" ".intercalate names ++ " ") = names := by
  have blank : (" ".intercalate names ++ " ").toList = (" ".intercalate names).toList ++ [' '] := by
    rw [String.toList_append]
    rfl
  rw [words, blank, wordChars_append_blank (by decide)]
  exact words_intercalate solid

end Text

namespace Matrix

/-! ## Plain names -/

/-- A character of names: no blank, and no separator. -/
def PlainChar (x : Char) : Prop :=
  Text.isBlank x = false ∧ x ≠ nameSeparator ∧ x ≠ columnSeparator

instance (x : Char) : Decidable (PlainChar x) := inferInstanceAs (Decidable (_ ∧ _))

theorem plainChar_of_isDigit (digit : x.isDigit = true) : PlainChar x := by
  have sign := Text.isDigitSign_of_isDecimal (Text.isDecimal_of_isDigit digit)
  refine ⟨Text.isBlank_of_isDigitSign sign, ?_, ?_⟩
  · rintro rfl
    exact absurd digit (by decide)
  · rintro rfl
    exact absurd digit (by decide)

theorem plainChar_repr (n : Nat) : ∀ x ∈ n.repr.toList, PlainChar x := fun _ mem =>
  plainChar_of_isDigit (Text.isDigit_of_mem_repr mem)

theorem plainChar_toString (i : Int) : ∀ x ∈ (toString i).toList, PlainChar x := by
  intro x mem
  rcases Text.of_mem_toString mem with digit | rfl
  · exact plainChar_of_isDigit digit
  · decide

/-- A name that survives the text form. -/
def Plain (name : String) : Prop := name.toList ≠ [] ∧ ∀ x ∈ name.toList, PlainChar x

theorem Plain.solid (plain : Plain name) : Solid name.toList :=
  ⟨plain.1, fun x mem => (plain.2 x mem).1⟩

/-- Joined names hold no separator. -/
theorem not_mem_intercalate (plain : ∀ name ∈ names, Plain name) (other : x ≠ ' ')
    (separates : ¬PlainChar x) : x ∉ (" ".intercalate names).toList := by
  intro mem
  rcases Text.mem_intercalate mem with blank | ⟨name, there, mem⟩
  · exact other blank
  · exact separates ((plain name there).2 x mem)

/-! ## Headers -/

/-- A header that lists primary columns. -/
theorem columnNames_intercalate (plain : ∀ name ∈ names, Plain name) :
    columnNames (" ".intercalate names) = (names, []) := by
  have free := not_mem_intercalate (x := columnSeparator) plain (by decide) (by decide)
  have solid : ∀ name ∈ names, Solid name.toList := fun name mem => (plain name mem).solid
  simp only [columnNames, Text.cut_of_not_mem free, Text.words_intercalate solid, Option.map_none,
    Option.getD_none]

/-- A header that lists primary and secondary columns. -/
theorem columnNames_header {primary secondary : List String}
    (plain : ∀ name ∈ primary ++ secondary, Plain name) :
    columnNames (" ".intercalate primary ++ " | " ++ " ".intercalate secondary)
      = (primary, secondary) := by
  obtain ⟨plain, plain'⟩ := List.forall_mem_append.1 plain
  have solid : ∀ name ∈ primary, Solid name.toList := fun name mem => (plain name mem).solid
  have solid' : ∀ name ∈ secondary, Solid name.toList := fun name mem => (plain' name mem).solid
  have parts : (" ".intercalate primary ++ " | " ++ " ".intercalate secondary).toList
      = (" ".intercalate primary ++ " ").toList
        ++ columnSeparator :: (" " ++ " ".intercalate secondary).toList := by
    simp only [String.toList_append, List.append_assoc]
    rfl
  have free : columnSeparator ∉ (" ".intercalate primary ++ " ").toList := by
    rw [String.toList_append, List.mem_append, not_or]
    exact ⟨not_mem_intercalate plain (by decide) (by decide), by decide⟩
  simp only [columnNames, Text.CutsInto.cut_eq ⟨parts, free⟩, Text.words_intercalate_blank solid,
    Text.words_blank_intercalate solid', Option.map_some, Option.getD_some]

/-- A list of names is not blank. -/
theorem isBlankText_intercalate (plain : ∀ name ∈ names, Plain name) (any : names ≠ []) :
    Text.isBlankText (" ".intercalate names) = false := by
  cases names with
  | nil => exact absurd rfl any
  | cons name names =>
    have solid := (plain name List.mem_cons_self).solid
    cases names with
    | nil =>
      have alone : (" ".intercalate [name]).toList = name.toList ++ [] := by simp
      exact Text.isBlankText_of_solid alone solid
    | cons next names =>
      have first : (" ".intercalate (name :: next :: names)).toList
          = name.toList ++ ' ' :: (" ".intercalate (next :: names)).toList := by simp
      exact Text.isBlankText_of_solid first solid

/-! ## Rows -/

/-- The line of a row that lists the columns it uses. -/
def rowText (name : String) (uses : List String) : String :=
  name ++ ": " ++ " ".intercalate uses

theorem toList_rowText (name : String) (uses : List String) :
    (rowText name uses).toList
      = name.toList ++ nameSeparator :: (" " ++ " ".intercalate uses).toList := by
  simp only [rowText, String.toList_append, List.append_assoc]
  rfl

/-- A row is cut after its name, unless the name holds a separator. -/
theorem cut_rowText (free : nameSeparator ∉ name.toList) (uses : List String) :
    Text.cut (rowText name uses) nameSeparator = (name, some (" " ++ " ".intercalate uses)) :=
  Text.CutsInto.cut_eq ⟨toList_rowText name uses, free⟩

theorem Plain.not_mem (plain : Plain name) : nameSeparator ∉ name.toList := fun mem =>
  (plain.2 _ mem).2.1 rfl

/-- The name of a row is read without the blanks around it, -/
theorem rowName_rowText_eq (free : nameSeparator ∉ name.toList) (uses : List String) :
    rowName i (rowText name uses) = Text.trim name := by
  simp only [rowName, cut_rowText free]

/-- and its columns word by word. -/
theorem rowValues_rowText_eq (free : nameSeparator ∉ name.toList) (uses : List String) :
    rowValues (rowText name uses) = uses.flatMap Text.words := by
  simp only [rowValues, cut_rowText free, Text.words_blank_append, Text.words_intercalate_eq]

theorem rowName_rowText (plain : Plain name) (uses : List String) :
    rowName i (rowText name uses) = name := by
  rw [rowName_rowText_eq plain.not_mem, Text.trim, Text.trimChars_of_solid plain.solid,
    String.ofList_toList]

theorem rowValues_rowText (plain : Plain name) (plainUses : ∀ d ∈ uses, Plain d) :
    rowValues (rowText name uses) = uses := by
  have solid : ∀ d ∈ uses, Solid d.toList := fun d mem => (plainUses d mem).solid
  rw [rowValues_rowText_eq plain.not_mem, ← Text.words_intercalate_eq, Text.words_intercalate solid]

/-- When the name of a row holds a separator, what follows the first one is read as columns, and one
of them holds the other separator. -/
theorem not_mem_of_plain_rowValues (plain : ∀ d ∈ rowValues (rowText name uses), Plain d) :
    nameSeparator ∉ name.toList := by
  intro mem
  obtain ⟨before, after, name_eq, free⟩ := List.eq_append_cons_of_mem mem
  have line : (rowText name uses).toList = (String.ofList before).toList ++ nameSeparator ::
      (String.ofList (after ++ nameSeparator :: (" " ++ " ".intercalate uses).toList)).toList := by
    rw [toList_rowText, name_eq, String.toList_ofList, String.toList_ofList, List.append_assoc,
      List.cons_append]
  have values := Text.CutsInto.cut_eq ⟨line, by rwa [String.toList_ofList]⟩
  have there : nameSeparator ∈ after ++ nameSeparator :: (" " ++ " ".intercalate uses).toList :=
    List.mem_append_right _ List.mem_cons_self
  obtain ⟨word, hword, holds⟩ := Text.exists_word there (by decide)
  have read : String.ofList word ∈ rowValues (rowText name uses) := by
    simp only [rowValues, values, Text.words, String.toList_ofList]
    exact List.mem_map_of_mem hword
  exact (plain _ read).not_mem (by rwa [String.toList_ofList])

/-- The separator makes a row more than blanks. -/
theorem isBlankText_rowText (name : String) (uses : List String) :
    Text.isBlankText (rowText name uses) = false := by
  refine Text.isBlankText_of_mem (c := nameSeparator) ?_ (by decide)
  rw [toList_rowText]
  exact List.mem_append_right _ List.mem_cons_self

/-- No row is blank. -/
theorem solid_rowTexts {κ : Type} {header : String} (solid : Text.isBlankText header = false)
    (candidates : List κ) (name : κ → String) (uses : κ → List String) :
    (header :: candidates.map fun c => rowText (name c) (uses c)).filter (!Text.isBlankText ·)
      = header :: candidates.map fun c => rowText (name c) (uses c) := by
  refine List.filter_eq_self.2 (List.forall_mem_cons.2 ⟨by simp [solid], fun line mem => ?_⟩)
  obtain ⟨c, hc, rfl⟩ := List.mem_map.1 mem
  simp [isBlankText_rowText]

end Matrix

end DancingLinks
