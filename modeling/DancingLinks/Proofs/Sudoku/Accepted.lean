import DancingLinks.Proofs.Sudoku.Lines

/-!
# Boards whose lines become a matrix

The value of a given cell need not be a symbol, and its square need not lie on the board. What such a
cell comes to is found out when its row is read. The words of the value are then read once for every
demand to have it, so the row is refused when the value has words after its first blank
(`wordsAfter_eq_nil`), and what is left of the value must be a symbol (`possible_of_accepted`). So when
the lines of a board become a matrix, it was built for possible cells, which are the candidates without
the blanks around their values (`of_ofConstraintLines`).
-/

namespace DancingLinks.Sudoku

open DancingLinks.Matrix (Plain Built ofConstraintLines rowText rowName rowValues)
open Text (firstWord wordsAfter)

variable {c : Cell} {d : Demand}

/-- The cell without the blanks around its value. -/
def Cell.trimmed (c : Cell) : Cell := ⟨c.square, Text.trim c.value⟩

namespace Encoding

variable {e : Encoding} {m : Matrix} {lines : List String} {i : Int}

/-! ## Words of a row -/

/-- A demand to fill a square is one word. -/
theorem words_filled (s : Square) :
    Text.words (Demand.filled s).name = [(Demand.filled s).name] := by
  have plain : Plain (Demand.filled s).name := Demand.plain_name (by rintro v ⟨⟩)
  exact Text.words_of_solid plain.solid

/-- A demand to have a value is read as the demand to have its first word, and the words after it. -/
theorem words_valued (demand : String → Demand)
    (front : ∀ v w, (demand v).front = (demand w).front) (rest : ∀ v, (demand v).rest = v)
    (value : String) :
    Text.words (demand value).name = (demand (firstWord value)).name :: wordsAfter value := by
  rw [(demand value).name_eq, Text.words_solid_append (demand value).solid_front, rest,
    front value (firstWord value), (demand (firstWord value)).name_eq, rest]

/-- What is read of the demands that a cell meets. -/
theorem flatMap_words (e : Encoding) (c : Cell) : (e.uses c).flatMap Text.words
    = (Demand.filled c.square).name ::
      (e.uses ⟨c.square, firstWord c.value⟩).tail.flatMap (· :: wordsAfter c.value) := by
  have row := words_valued (.inRow c.square.row) (fun _ _ => rfl) (fun _ => rfl) c.value
  have column := words_valued (.inColumn c.square.column) (fun _ _ => rfl) (fun _ => rfl) c.value
  have box := words_valued (.inBox (boxNumber e.side c.square)) (fun _ _ => rfl)
    (fun _ => rfl) c.value
  unfold uses met
  cases e.boxes with
  | false => simp [words_filled, row, column]
  | true => simp [words_filled, row, column, box]

/-- The words after the first blank of a value are read with every demand to have it. -/
theorem wordsAfter_eq_nil (nodup : ((e.uses c).flatMap Text.words).Nodup) :
    wordsAfter c.value = [] := by
  -- There are a demand in the row and one in the column at least.
  obtain ⟨row, column, others, demands⟩ :
      ∃ row column others, (e.uses ⟨c.square, firstWord c.value⟩).tail = row :: column :: others :=
    ⟨_, _, _, rfl⟩
  rw [flatMap_words, demands, List.flatMap_cons, List.flatMap_cons] at nodup
  have twice : (wordsAfter c.value ++ wordsAfter c.value).Sublist ((row :: wordsAfter c.value) ++
      ((column :: wordsAfter c.value) ++ others.flatMap (· :: wordsAfter c.value))) :=
    (List.sublist_cons_self row _).append
      ((List.sublist_cons_self column _).trans (List.sublist_append_left _ _))
  have disjoint := (List.nodup_append.1 (nodup.of_cons.sublist twice)).2.2
  exact List.eq_nil_iff_forall_not_mem.2 fun word mem => disjoint word mem word mem rfl

/-! ## Values without words after their first blank -/

theorem firstWord_eq_trim (none : wordsAfter c.value = []) : firstWord c.value = Text.trim c.value := by
  have trimmed : Text.trim ("" ++ c.value) = "" ++ firstWord c.value := Text.trim_append nofun none
  rw [String.empty_append, String.empty_append] at trimmed
  exact trimmed.symm

/-- A cell is read as the one without the blanks around its value, -/
theorem flatMap_words_eq (none : wordsAfter c.value = []) :
    (e.uses c).flatMap Text.words = e.uses c.trimmed := by
  obtain ⟨square, value⟩ := c
  rw [flatMap_words, none, List.flatMap_singleton', firstWord_eq_trim none]
  rfl

/-- and so is its name. -/
theorem trim_cellName (none : wordsAfter c.value = []) :
    Text.trim (cellName c) = cellName c.trimmed := by
  have parts : ∀ value, cellName ⟨c.square, value⟩ = s!"r{c.square.row}c{c.square.column}#" ++ value :=
    fun _ => rfl
  have solid : ∀ x ∈ s!"r{c.square.row}c{c.square.column}#".toList, Text.isBlank x = false := by
    intro x mem
    simp only [String.toList_append, List.mem_append] at mem
    rcases mem with (((mem | mem) | mem) | mem) | mem
    · obtain rfl : x = 'r' := List.mem_singleton.1 mem
      decide
    · exact (Matrix.plainChar_toString _ x mem).1
    · obtain rfl : x = 'c' := List.mem_singleton.1 mem
      decide
    · exact (Matrix.plainChar_toString _ x mem).1
    · obtain rfl : x = '#' := List.mem_singleton.1 mem
      decide
  have trimmed := Text.trim_append solid none
  rwa [firstWord_eq_trim none, ← parts, ← parts] at trimmed

/-! ## Rows that are accepted -/

/-- The row of a cell, as it is written. -/
def row (e : Encoding) (c : Cell) : String := rowText (cellName c) (e.uses c)

/-- A row of declared columns, none of which it lists twice, is that of a possible cell, which is the
one that was written without the blanks around its value. -/
theorem possible_of_accepted (symbols : ∀ v ∈ e.symbols, isSymbol v = true)
    (declared : rowValues (e.row c) ⊆ e.names) (nodup : (rowValues (e.row c)).Nodup) :
    e.Possible c.trimmed ∧ (∀ i, rowName i (e.row c) = cellName c.trimmed) ∧
      rowValues (e.row c) = e.uses c.trimmed := by
  have free := Matrix.not_mem_of_plain_rowValues fun name mem =>
    plain_of_mem_names symbols name (declared mem)
  rw [row, Matrix.rowValues_rowText_eq free] at declared nodup ⊢
  have none := wordsAfter_eq_nil nodup
  rw [flatMap_words_eq none] at declared ⊢
  have demanded : ∀ d, e.Meets c.trimmed d → d ∈ e.allDemands := by
    intro d meets
    obtain ⟨d', there, same⟩ := List.mem_map.1 (declared (name_mem_uses.2 meets))
    exact Demand.name_inj same ▸ there
  have filled : e.Meets c.trimmed (.filled c.trimmed.square) := rfl
  have valued : e.Meets c.trimmed (.inRow c.trimmed.square.row c.trimmed.value) := ⟨rfl, rfl⟩
  have value : c.trimmed.value ∈ e.symbols := value_mem_symbols (demanded _ valued) _ rfl
  refine ⟨⟨filled_mem_allDemands.1 (demanded _ filled), List.mem_of_mem_take value⟩,
    fun i => ?_, rfl⟩
  rw [Matrix.rowName_rowText_eq free, trim_cellName none]

/-! ## Boards that are encoded -/

/-- What is checked of a board before it is encoded. -/
structure Checked (e : Encoding) : Prop where
  size : 1 ≤ e.size
  accepted : checkAlphabet e.alphabet e.size = .ok ()
  squares : (e.given.map Cell.square).Nodup

/-- The demand that a cell meets in its box, if that can be written. -/
theorem eq_inBox_of_boxDemand (written : boxDemand e.size c = .ok d) :
    d = .inBox (boxNumber e.side c.square) c.value := by
  obtain ⟨number, found, written⟩ := ok_of_bind written
  have numbered : boxNumber e.side c.square = number := by
    unfold box at found
    dsimp only at found
    split at found
    · cases found
    · exact Except.ok.inj found
  have made : .inBox number c.value = d := by
    dsimp only at written
    split at written
    · exact Except.ok.inj written
    · obtain ⟨-, -, written⟩ := ok_of_bind written
      exact Except.ok.inj written
  rw [numbered, made]

/-- The demands that a cell meets, if its box can be written. -/
theorem eq_met_of_demands {ds : List Demand} (written : e.demands c = .ok ds) : ds = e.met c := by
  unfold demands at written
  unfold met
  cases boxes : e.boxes with
  | false =>
    simp only [boxes] at written
    exact (Except.ok.inj written).symm
  | true =>
    simp only [boxes, if_true] at written
    obtain ⟨d, met, written⟩ := ok_of_bind written
    rw [← Except.ok.inj written, eq_inBox_of_boxDemand met]
    rfl

/-- The lines of a board, if they can be written: its header, and the rows of its candidates. -/
theorem lines_of_ok (written : e.lines = .ok lines) : lines = e.header :: e.candidates.map e.row := by
  obtain ⟨rows, made, written⟩ := ok_of_bind written
  cases written
  refine congrArg _ (eq_map_of_mapM made fun c _ line done => ?_)
  obtain ⟨demands, met, done⟩ := ok_of_bind done
  cases done
  rw [eq_met_of_demands met]
  rfl

theorem Checked.symbols (checked : e.Checked) : ∀ v ∈ e.symbols, isSymbol v = true := fun v mem =>
  (checkAlphabet_eq_ok_iff.1 checked.accepted).2 v (List.mem_of_mem_take mem)

theorem Checked.isBlankText_header (checked : e.Checked) : Text.isBlankText e.header = false := by
  have size := checked.size
  have corner : (Square.mk 1 1).OnBoard e.size := ⟨Int.le_refl 1, size, Int.le_refl 1, size⟩
  have any : e.names ≠ [] :=
    List.ne_nil_of_mem (List.mem_map_of_mem (filled_mem_allDemands.2 corner))
  exact Matrix.isBlankText_intercalate (plain_of_mem_names checked.symbols) any

/-- A matrix that the lines of a board become was built for possible cells, which are the candidates
without the blanks around their values. -/
theorem of_ofConstraintLines (checked : e.Checked) (written : e.lines = .ok lines)
    (made : ofConstraintLines lines = .ok m) :
    (∀ c ∈ e.candidates, e.Possible c.trimmed) ∧ ∃ choices, Built m ⟨e.names, [], choices⟩ ∧
      choices.map Choice.content = e.candidates.map fun c => (cellName c.trimmed, e.uses c.trimmed) := by
  rw [lines_of_ok written] at made
  obtain ⟨choices, built, contents⟩ := Matrix.of_rowTexts checked.isBlankText_header
    (Matrix.columnNames_intercalate (plain_of_mem_names checked.symbols)) made
  -- Every row is that of a choice, so its columns are declared and different.
  have accepted : ∀ c ∈ e.candidates, rowValues (e.row c) ⊆ e.names ∧ (rowValues (e.row c)).Nodup := by
    intro c hc
    have mem : rowValues (e.row c) ∈ choices.map Choice.columns := by
      rw [Matrix.columns_of_contents contents]
      exact List.mem_map_of_mem (List.mem_map.2 ⟨c, hc, rfl⟩)
    obtain ⟨r, hr, columns⟩ := List.mem_map.1 mem
    have declared := built.declares r hr
    rw [Problem.columns, List.append_nil] at declared
    exact columns ▸ ⟨declared, built.nodup_columns r hr⟩
  have possible := fun c hc =>
    possible_of_accepted checked.symbols (accepted c hc).1 (accepted c hc).2
  refine ⟨fun c hc => (possible c hc).1, choices, built, contents.trans (Matrix.lineContents_map ?_ ?_ 1)⟩
  · exact fun c hc => (possible c hc).2.1
  · exact fun c hc => (possible c hc).2.2

end Encoding

end DancingLinks.Sudoku
