import DancingLinks.Proofs.Square
import DancingLinks.Proofs.Text.Grammar

/-!
# Grids

A grid is read from lines of text, of which the blank ones and the blanks around a line do not count
(`gridRows`). It shows a character on each of its squares (`ShowsAt`), and grids that are as wide as each
other are told by what they show (`eq_of_showsAt`). The lines that are written for a board show what is
put on its squares, and nothing else (`showsAt_gridLines`).
-/

namespace DancingLinks

variable {g h lines : List String} {line : String} {s : Square} {x y : Char} {n : Int} {i j : Nat}

/-! ## Lines that count -/

/-- The lines of a grid: those that are not blank, without the blanks around them. -/
def gridRows (lines : List String) : List String :=
  (lines.filter (!Text.isBlankText ·)).map Text.trim

/-- A text does not become blank when it is trimmed. -/
theorem Text.isBlankText_trim (text : String) : isBlankText (trim text) = isBlankText text := by
  obtain ⟨⟨front, back, eq, blanks, blanks'⟩, -, -⟩ := trims_iff.2 (rfl : trim text = trim text)
  have before : front.all isBlank = true := List.all_eq_true.2 blanks
  have after : back.all isBlank = true := List.all_eq_true.2 blanks'
  rw [isBlankText, isBlankText, eq, List.all_append, List.all_append, before, after, Bool.true_and,
    Bool.and_true]

/-- The lines of a grid are its lines again. -/
theorem gridRows_gridRows (lines : List String) : gridRows (gridRows lines) = gridRows lines := by
  have solid : ∀ line ∈ gridRows lines, (!Text.isBlankText line) = true := by
    intro line mem
    obtain ⟨text, kept, rfl⟩ := List.mem_map.1 mem
    rw [Text.isBlankText_trim]
    exact (List.mem_filter.1 kept).2
  rw [gridRows, List.filter_eq_self.2 solid, gridRows, List.map_map]
  exact List.map_congr_left fun text _ => Text.trim_trim text

/-- Lines without blanks stay as they are. -/
theorem gridRows_eq_self (solid : ∀ line ∈ lines, Text.Solid line.toList) : gridRows lines = lines := by
  have kept : ∀ line ∈ lines, (!Text.isBlankText line) = true := by
    intro line mem
    rw [Text.isBlankText_of_solid (List.append_nil _).symm (solid line mem)]
    rfl
  rw [gridRows, List.filter_eq_self.2 kept]
  refine (List.map_congr_left fun line mem => ?_).trans (List.map_id lines)
  rw [Text.trim, Text.trimChars_of_solid (solid line mem), String.ofList_toList]
  rfl

/-- The grid has some number of lines, all of which have so many characters. -/
structure IsSquare (n : Int) (g : List String) : Prop where
  height : (g.length : Int) = n
  width : ∀ line ∈ g, (line.length : Int) = n

/-! ## What a grid shows -/

/-- The grid shows a character on a square. -/
def ShowsAt (g : List String) (s : Square) (x : Char) : Prop :=
  ∃ i j : Nat, s = ⟨i + 1, j + 1⟩ ∧ (g[i]?.bind fun line => line.toList[j]?) = some x

/-- Rows and columns are counted from one. -/
theorem showsAt_iff :
    ShowsAt g ⟨i + 1, j + 1⟩ x ↔ (g[i]?.bind fun line => line.toList[j]?) = some x := by
  constructor
  · rintro ⟨i', j', same, shown⟩
    rw [Square.mk.injEq] at same
    obtain rfl : i = i' := by omega
    obtain rfl : j = j' := by omega
    exact shown
  · exact fun shown => ⟨i, j, rfl, shown⟩

theorem ShowsAt.unique (first : ShowsAt g s x) (second : ShowsAt g s y) : x = y := by
  obtain ⟨i, j, rfl, shown⟩ := first
  exact Option.some.inj (shown.symm.trans (showsAt_iff.1 second))

/-- What is shown stands on a line. -/
theorem ShowsAt.exists_line (shown : ShowsAt g s x) : ∃ line ∈ g, x ∈ line.toList := by
  obtain ⟨i, j, rfl, shown⟩ := shown
  obtain ⟨line, here, there⟩ := Option.bind_eq_some_iff.1 shown
  exact ⟨line, List.mem_of_getElem? here, List.mem_of_getElem? there⟩

/-- What stands on a line is shown. -/
theorem exists_showsAt (mem : line ∈ g) (there : x ∈ line.toList) : ∃ s, ShowsAt g s x := by
  obtain ⟨i, here⟩ := List.mem_iff_getElem?.1 mem
  obtain ⟨j, there⟩ := List.mem_iff_getElem?.1 there
  exact ⟨⟨i + 1, j + 1⟩, i, j, rfl, Option.bind_eq_some_iff.2 ⟨line, here, there⟩⟩

/-- A square grid shows something on the squares of the board of its size only. -/
theorem ShowsAt.onBoard (square : ∀ line ∈ g, line.length = g.length) (shown : ShowsAt g s x) :
    s.OnBoard g.length := by
  obtain ⟨i, j, rfl, shown⟩ := shown
  obtain ⟨line, here, there⟩ := Option.bind_eq_some_iff.1 shown
  have row : i < g.length := (List.getElem?_eq_some_iff.1 here).1
  have column : j < line.toList.length := (List.getElem?_eq_some_iff.1 there).1
  rw [String.length_toList, square line (List.mem_of_getElem? here)] at column
  refine ⟨?_, ?_, ?_, ?_⟩ <;> dsimp only <;> omega

/-- Grids of one height and one width that show the same are equal. -/
theorem eq_of_showsAt {width : Nat} (height : g.length = h.length)
    (wide : ∀ line ∈ g, line.length = width) (wide' : ∀ line ∈ h, line.length = width)
    (same : ∀ s x, ShowsAt g s x → ShowsAt h s x) : g = h := by
  refine List.ext_getElem height fun i here here' => String.toList_inj.1 ?_
  have length : g[i].toList.length = h[i].toList.length := by
    rw [String.length_toList, String.length_toList, wide _ (List.getElem_mem here),
      wide' _ (List.getElem_mem here')]
  refine List.ext_getElem length fun j there there' => ?_
  have shown : ShowsAt g ⟨i + 1, j + 1⟩ (g[i].toList[j]) :=
    showsAt_iff.2 (by rw [List.getElem?_eq_getElem here, Option.bind_some,
      List.getElem?_eq_getElem there])
  have shown' := showsAt_iff.1 (same _ _ shown)
  rw [List.getElem?_eq_getElem here', Option.bind_some, List.getElem?_eq_getElem there',
    Option.some.injEq] at shown'
  exact shown'.symm

/-! ## Lines that are written -/

theorem getElem?_oneTo (inside : i < n.toNat) : (oneTo n)[i]? = some (i + 1 : Int) := by
  rw [oneTo, List.getElem?_map, List.getElem?_range inside]
  rfl

theorem length_gridLines (n : Int) (symbol : Square → String) :
    (gridLines n symbol).length = n.toNat := by
  rw [gridLines, List.length_map, length_oneTo]

/-- The characters of a line of squares, each of which shows one character. -/
theorem toList_join_oneTo (symbol : Int → Char) :
    (String.join ((oneTo n).map fun column => String.singleton (symbol column))).toList =
      (oneTo n).map symbol := by
  rw [String.toList_join, List.flatMap_map, List.map_eq_flatMap]
  simp only [String.toList_singleton]

/-- A line has one character for each square. -/
theorem length_of_mem_gridLines {symbol : Square → Char}
    (mem : line ∈ gridLines n fun s => String.singleton (symbol s)) : line.length = n.toNat := by
  obtain ⟨row, -, rfl⟩ := List.mem_map.1 mem
  rw [← String.length_toList, toList_join_oneTo fun column => symbol ⟨row, column⟩, List.length_map,
    length_oneTo]

/-- So the lines that are written for a board make a grid of its size. -/
theorem isSquare_gridLines (positive : 1 ≤ n) (symbol : Square → Char) :
    IsSquare n (gridLines n fun s => String.singleton (symbol s)) where
  height := by
    rw [length_gridLines]
    omega
  width := fun line mem => by
    rw [length_of_mem_gridLines mem]
    omega

/-- The character on a square of a grid, each square of which shows one character. -/
theorem char_gridLines (symbol : Square → Char) (hi : i < n.toNat) (hj : j < n.toNat) :
    ((gridLines n fun s => String.singleton (symbol s))[i]?.bind fun line => line.toList[j]?) =
      some (symbol ⟨i + 1, j + 1⟩) := by
  rw [gridLines, List.getElem?_map, getElem?_oneTo hi, Option.map_some, Option.bind_some,
    toList_join_oneTo fun column => symbol ⟨i + 1, column⟩, List.getElem?_map, getElem?_oneTo hj]
  rfl

/-- The lines that are written for a board show what is put on its squares. -/
theorem showsAt_gridLines {symbol : Square → Char} :
    ShowsAt (gridLines n fun s => String.singleton (symbol s)) s x ↔ s.OnBoard n ∧ x = symbol s := by
  constructor
  · rintro ⟨i, j, rfl, shown⟩
    obtain ⟨line, here, there⟩ := Option.bind_eq_some_iff.1 shown
    have row := (List.getElem?_eq_some_iff.1 here).1
    have column := (List.getElem?_eq_some_iff.1 there).1
    rw [length_gridLines] at row
    rw [String.length_toList, length_of_mem_gridLines (List.mem_of_getElem? here)] at column
    refine ⟨?_, Option.some.inj (shown.symm.trans (char_gridLines symbol row column))⟩
    refine ⟨?_, ?_, ?_, ?_⟩ <;> dsimp only <;> omega
  · obtain ⟨row, column⟩ := s
    rintro ⟨⟨top, bottom, left, right⟩, rfl⟩
    dsimp only at top bottom left right
    obtain ⟨i, rfl⟩ : ∃ i : Nat, row = i + 1 := ⟨(row - 1).toNat, by omega⟩
    obtain ⟨j, rfl⟩ : ∃ j : Nat, column = j + 1 := ⟨(column - 1).toNat, by omega⟩
    exact showsAt_iff.2 (char_gridLines symbol (by omega) (by omega))

/-- A square grid is what is written for a board that has the same characters on its squares. -/
theorem gridLines_eq {symbol : Square → Char} (square : ∀ line ∈ g, line.length = g.length)
    (shows : ∀ s x, ShowsAt g s x → x = symbol s) :
    (gridLines g.length fun s => String.singleton (symbol s)) = g := by
  refine (eq_of_showsAt ?_ square ?_ fun s x shown => ?_).symm
  · rw [length_gridLines]
    rfl
  · exact fun line mem => length_of_mem_gridLines mem
  · exact showsAt_gridLines.2 ⟨shown.onBoard square, shows s x shown⟩

end DancingLinks
