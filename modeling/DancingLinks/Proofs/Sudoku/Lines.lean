import DancingLinks.Proofs.Outcome
import DancingLinks.Proofs.Search.Encoded
import DancingLinks.Proofs.Sudoku.Encoding

/-!
# The text form of a sound board

On a sound board a cell uses the column of a demand exactly when it meets the demand
(`name_mem_uses`), and its candidates are `Writable`. So the constraint lines of the board become a
matrix that encodes the candidates (`ofConstraintLines_ok`).
-/

namespace DancingLinks.Sudoku.Encoding

open DancingLinks.Matrix (Plain Built ofConstraintLines)

variable {e : Encoding} {c : Cell} {d : Demand}

/-! ## Names -/

/-- The names of the demands of the board. -/
def names (e : Encoding) : List String := e.allDemands.map Demand.name

/-- The names of the demands that a cell meets. -/
def uses (e : Encoding) (c : Cell) : List String := (e.met c).map Demand.name

/-- The cell with some name. -/
def readCell (name : String) : Cell := (readCellName name).toOption.getD default

theorem readCell_cellName (proper : c.Proper) : readCell (cellName c) = c := by
  rw [readCell, readCellName_cellName proper]
  rfl

/-- A cell uses the column of a demand when it meets the demand. -/
theorem name_mem_uses : d.name ∈ e.uses c ↔ e.Meets c d := by
  rw [← mem_met, uses]
  exact List.mem_map_of_injective fun _ _ => Demand.name_inj

/-- When the alphabet holds symbols only, the demands have plain names. -/
theorem plain_of_mem_names (symbols : ∀ v ∈ e.symbols, isSymbol v = true) :
    ∀ name ∈ e.names, Plain name := by
  intro name mem
  obtain ⟨d, hd, rfl⟩ := List.mem_map.1 mem
  exact Demand.plain_name fun v hv => symbols v (value_mem_symbols hd v hv)

/-- The candidates of a sound board can be written and read back. -/
theorem writable (sound : e.Sound) : Writable e.candidates cellName e.uses e.names readCell where
  distinct := nodup_candidates sound
  known := fun _ hc => readCell_cellName (sound.proper ((mem_candidates sound).1 hc).1)
  plain := fun _ hc => plain_cellName (sound.proper ((mem_candidates sound).1 hc).1)
  different := (nodup_allDemands sound).map fun _ _ => Demand.name_inj
  plainColumns := plain_of_mem_names (sound.symbols_eq ▸ sound.symbols)
  declared := by
    intro c hc name mem
    obtain ⟨d, hd, rfl⟩ := List.mem_map.1 mem
    have poses := (mem_met.1 hd).poses sound ((mem_candidates sound).1 hc).1
    exact List.mem_map_of_mem ((mem_allDemands sound).2 poses)
  nodup := fun c _ => (nodup_met e c).map fun _ _ => Demand.name_inj

/-! ## Lines -/

/-- There is a demand, and a candidate that meets it. -/
theorem names_candidates_ne_nil (sound : e.Sound) : e.names ≠ [] ∧ e.candidates ≠ [] := by
  have size := sound.size
  have onBoard : (Square.mk 1 1).OnBoard e.size := ⟨Int.le_refl 1, size, Int.le_refl 1, size⟩
  have posed : .filled ⟨1, 1⟩ ∈ e.allDemands := (mem_allDemands sound).2 onBoard
  obtain ⟨c, hc, -⟩ := exists_candidate sound onBoard
  exact ⟨List.ne_nil_of_mem (List.mem_map_of_mem posed), List.ne_nil_of_mem hc⟩

/-- The lines of a sound board: its header, and the rows of its candidates. -/
theorem lines_eq (sound : e.Sound) :
    e.lines = .ok (e.header :: e.candidates.map fun c => Matrix.rowText (cellName c) (e.uses c)) := by
  have rows : ∀ c ∈ e.candidates, e.rowLine c = .ok (Matrix.rowText (cellName c) (e.uses c)) := by
    intro c hc
    rw [rowLine, demands_eq sound ((mem_candidates sound).1 hc).1]
    rfl
  rw [lines, mapM_ok rows]
  rfl

/-- The lines of a sound board become a matrix that encodes its candidates. -/
theorem ofConstraintLines_ok (sound : e.Sound) :
    ∃ lines m choices, e.lines = .ok lines ∧ ofConstraintLines lines = .ok m ∧
      Built m ⟨e.names, [], choices⟩ ∧
      (Problem.mk e.names [] choices).Encodes e.candidates cellName e.uses readCell := by
  have plain := (writable sound).plainColumns
  have all : Writable e.candidates cellName e.uses (e.names ++ []) readCell := by
    rw [List.append_nil]
    exact writable sound
  have header : Text.isBlankText e.header = false :=
    Matrix.isBlankText_intercalate plain (names_candidates_ne_nil sound).1
  obtain ⟨m, choices, made, built, encodes⟩ := all.ofConstraintLines_ok
    (Matrix.columnNames_intercalate plain) header (names_candidates_ne_nil sound).2
  exact ⟨_, m, choices, lines_eq sound, made, built, encodes⟩

end DancingLinks.Sudoku.Encoding
