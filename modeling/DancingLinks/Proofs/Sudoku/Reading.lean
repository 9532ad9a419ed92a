import DancingLinks.Proofs.Sudoku.Parsed
import Mathlib.Data.Finset.Card

/-!
# Grids that are read

A grid is read when it is `WellFormed`: it has as many lines as there are characters on each, no more
symbols than that, none of which would get lost in a text form, and default symbols enough to make an
alphabet of them. The board that is read is the only one that the grid `Describes`. It is written as the
grid, so writing undoes reading (`Board.parse_reads_wellFormed`).
-/

namespace DancingLinks.Sudoku

variable {g lines alphabet : List String} {x : Char} {n : Int} {cells : List Cell} {fault : Fault}
  {b b' : Board}

/-! ## The symbols of a grid -/

/-- The symbols that are seen in a grid: its characters, but for the sign of an empty square. -/
def seen (g : List String) : Finset Char := (g.flatMap String.toList).toFinset.erase emptySymbol

/-- The default symbols that are not seen in a grid. -/
def unseen (g : List String) : List Char := defaultSymbols.filter (· ∉ seen g)

/-- The default symbols that an alphabet is filled up with, as far as there are any. -/
def added (g : List String) : List Char := (unseen g).take (g.length - (seen g).card)

theorem mem_seen : x ∈ seen g ↔ (∃ line ∈ g, x ∈ line.toList) ∧ x ≠ emptySymbol := by
  rw [seen, Finset.mem_erase, List.mem_toFinset, List.mem_flatMap, and_comm]

/-- A grid shows the symbols that are seen in it. -/
theorem mem_seen_iff_showsAt : x ∈ seen g ↔ (∃ s, ShowsAt g s x) ∧ x ≠ emptySymbol := by
  rw [mem_seen]
  refine and_congr_left fun _ => ⟨?_, fun ⟨s, shown⟩ => shown.exists_line⟩
  rintro ⟨line, hline, there⟩
  exact exists_showsAt hline there

theorem mem_shownSymbols_iff : x ∈ shownSymbols g ↔ x ∈ seen g := mem_shownSymbols.trans mem_seen.symm

theorem card_seen (g : List String) : (seen g).card = (shownSymbols g).length := by
  have same : seen g = (shownSymbols g).toFinset := by
    ext x
    rw [List.mem_toFinset, mem_shownSymbols_iff]
  rw [same, List.toFinset_card_of_nodup (nodup_shownSymbols g)]

theorem nodup_unseen (g : List String) : (unseen g).Nodup := nodup_defaultSymbols.filter _

/-- Symbols that are seen and symbols that are not. -/
theorem card_seen_union_unseen (g : List String) :
    (seen g ∪ (unseen g).toFinset).card = (seen g).card + (unseen g).length := by
  rw [Finset.card_union_of_disjoint, List.toFinset_card_of_nodup (nodup_unseen g)]
  refine Finset.disjoint_left.2 fun x hx missing => ?_
  exact of_decide_eq_true (List.mem_filter.1 (List.mem_toFinset.1 missing)).2 hx

/-! ## The alphabet of a grid -/

/-- The alphabet of a grid that does not show too many symbols. -/
theorem inferAlphabet_of_few (few : (seen g).card ≤ g.length) :
    inferAlphabet g.length g = .ok ((shownSymbols g ++ added g).map String.singleton) := by
  have missing : defaultSymbols.filter (· ∉ shownSymbols g) = unseen g := by
    refine List.filter_congr fun x _ => ?_
    rw [decide_eq_decide, mem_shownSymbols_iff]
  have room : ((g.length : Int) - (shownSymbols g).length).toNat = g.length - (seen g).card := by
    rw [card_seen]
    omega
  rw [card_seen] at few
  rw [inferAlphabet, if_neg (by omega), missing, room]
  rfl

/-- There is none of a grid that does. -/
theorem inferAlphabet_of_many (many : g.length < (seen g).card) :
    ∃ symbols, inferAlphabet g.length g = .error (.tooManySymbols symbols g.length) := by
  rw [card_seen] at many
  exact ⟨_, if_pos (by omega)⟩

theorem isSymbol_singleton :
    isSymbol (String.singleton x) = true ↔
      Text.isBlank x = false ∧ x ≠ emptySymbol ∧ x ≠ ':' ∧ x ≠ '|' := by
  simp [isSymbol, reserved]

/-- The default symbols are fit. -/
theorem symbol_of_mem_defaultSymbols (mem : x ∈ defaultSymbols) :
    isSymbol (String.singleton x) = true := by
  have all : (defaultSymbols.all fun x => !Text.isBlank x && x ∉ reserved) = true := by decide +kernel
  simpa [isSymbol] using List.all_eq_true.1 all x mem

/-- The alphabet of a grid is accepted when there are symbols enough, and the seen ones are fit. -/
theorem checkAlphabet_added (few : (seen g).card ≤ g.length) :
    checkAlphabet ((shownSymbols g ++ added g).map String.singleton) g.length = .ok () ↔
      g.length ≤ (seen g ∪ (unseen g).toFinset).card ∧
        ∀ x ∈ seen g, Text.isBlank x = false ∧ x ≠ ':' ∧ x ≠ '|' := by
  have length : ((shownSymbols g ++ added g).map String.singleton).length =
      (seen g).card + min (g.length - (seen g).card) (unseen g).length := by
    rw [List.length_map, List.length_append, added, List.length_take, card_seen]
  rw [checkAlphabet_eq_ok_iff, length, card_seen_union_unseen, List.forall_mem_map,
    List.forall_mem_append]
  refine and_congr (by omega) ⟨fun symbols x hx => ?_, fun proper =>
    ⟨fun x hx => ?_, fun x hx => ?_⟩⟩
  · obtain ⟨solid, -, free⟩ := isSymbol_singleton.1 (symbols.1 x (mem_shownSymbols_iff.2 hx))
    exact ⟨solid, free⟩
  · rw [mem_shownSymbols_iff] at hx
    obtain ⟨solid, free⟩ := proper x hx
    exact isSymbol_singleton.2 ⟨solid, (mem_seen.1 hx).2, free⟩
  · exact symbol_of_mem_defaultSymbols (List.mem_filter.1 (List.mem_of_mem_take hx)).1

/-! ## Grids that are well formed -/

/-- A grid that can be read. -/
structure WellFormed (g : List String) : Prop where
  any : 1 ≤ g.length
  square : ∀ line ∈ g, line.length = g.length
  few : (seen g).card ≤ g.length
  /-- No symbol would get lost in the text form. -/
  proper : ∀ x ∈ seen g, Text.isBlank x = false ∧ x ≠ ':' ∧ x ≠ '|'
  /-- There are default symbols enough to fill up the alphabet. -/
  enough : g.length ≤ (seen g ∪ (unseen g).toFinset).card

/-- The board is the one that the grid shows. -/
structure Describes (g : List String) (b : Board) : Prop where
  size : b.size = g.length
  /-- There is a cell on every square that is not empty. -/
  cells : ∀ c, c ∈ b.cells ↔
    ∃ x, ShowsAt g c.square x ∧ x ≠ emptySymbol ∧ c.value = String.singleton x
  /-- The alphabet is in order, and no symbol occurs twice. -/
  increasing : b.alphabet.Pairwise (· < ·)
  /-- Its symbols are the seen ones, and those it is filled up with. -/
  symbols : ∀ v, v ∈ b.alphabet ↔ ∃ x, (x ∈ seen g ∨ x ∈ added g) ∧ v = String.singleton x
  length : b.alphabet.length = g.length

/-- A grid describes no two boards. -/
theorem Describes.unique (first : Describes g b) (second : Describes g b') : b = b' := by
  have size : b.size = b'.size := first.size.trans second.size.symm
  have cells : b.cells = b'.cells :=
    eq_of_mem_iff (fun c d => Square.lt_asymm c.square d.square) b.ordered b'.ordered fun c =>
      (first.cells c).trans (second.cells c).symm
  have alphabet : b.alphabet = b'.alphabet :=
    eq_of_mem_iff (fun _ _ => String.lt_asymm) first.increasing second.increasing fun v =>
      (first.symbols v).trans (second.symbols v).symm
  cases b
  cases b'
  rw [Board.mk.injEq]
  exact ⟨size, cells, alphabet⟩

namespace Board

/-! ## Reading -/

/-- The board that the lines of a grid show. -/
def readRows (rows : List String) : Except Fault Board := do
  let cells ← cellsOnLines rows.length 1 rows
  of rows.length cells (← inferAlphabet rows.length rows)

theorem readRows_eq (read : cellsOnLines g.length 1 g = .ok cells)
    (inferred : inferAlphabet g.length g = .ok alphabet) :
    readRows g = of g.length cells alphabet := by
  rw [readRows, read, inferred]
  rfl

/-- Only the lines that count are read. -/
theorem parse_eq (lines : List String) : parse lines = readRows (gridRows lines) := rfl

theorem parse_gridRows (lines : List String) : parse (gridRows lines) = parse lines := by
  rw [parse_eq, parse_eq, gridRows_gridRows]

/-- Different symbols, once sorted, are in strictly increasing order. -/
theorem increasing_sorted (different : alphabet.Nodup) : (sorted alphabet).Pairwise (· < ·) := by
  refine pairwise_lt_sorted (fun _ _ => String.lt_asymm) (fun _ _ _ => texts_trans)
    (fun v w notLess notGreater => ?_) different
  exact String.le_antisymm (String.not_lt.1 notGreater) (String.not_lt.1 notLess)

/-- A well formed grid is read, as the board that it describes. -/
theorem readRows_of_wellFormed (wellFormed : WellFormed g) :
    ∃ b, readRows g = .ok b ∧ Describes g b := by
  obtain ⟨any, square, few, proper, enough⟩ := wellFormed
  obtain ⟨cells, read⟩ : ∃ cells, cellsOnLines g.length 1 g = .ok cells :=
    exists_cellsOnLines.2 square
  have inferred := inferAlphabet_of_few few
  have accepted := (checkAlphabet_added few).2 ⟨enough, proper⟩
  obtain ⟨different, small, -⟩ := of_inferAlphabet inferred
  have large := (checkAlphabet_eq_ok_iff.1 accepted).1
  have made := of_eq (by omega) accepted (nodup_squares_cellsOnLines read)
  rw [List.take_of_length_le (by omega)] at made
  refine ⟨_, (readRows_eq read inferred).trans made, rfl, fun c => ?_, increasing_sorted different,
    fun v => ?_, ?_⟩
  · exact mem_sorted.trans (mem_cells_iff read)
  · rw [mem_sorted, List.mem_map]
    refine exists_congr fun x => ?_
    rw [List.mem_append, mem_shownSymbols_iff, eq_comm]
  · rw [length_sorted]
    omega

/-- A grid that is read is well formed. -/
theorem wellFormed_of_readRows (parsed : readRows g = .ok b) : WellFormed g := by
  obtain ⟨cells, read, parsed⟩ := ok_of_bind parsed
  obtain ⟨alphabet, inferred, made⟩ := ok_of_bind parsed
  have square := exists_cellsOnLines.1 ⟨cells, read⟩
  have few : (seen g).card ≤ g.length := by
    by_contra many
    obtain ⟨symbols, refused⟩ := inferAlphabet_of_many (Nat.lt_of_not_le many)
    cases inferred.symm.trans refused
  rw [inferAlphabet_of_few few] at inferred
  cases inferred
  obtain ⟨enough, proper⟩ := (checkAlphabet_added few).1 (checkAlphabet_of_of made)
  obtain ⟨any, size, -⟩ := eq_of_of made
  exact ⟨by omega, square, few, proper, enough⟩

/-- What is read of a grid is the board that it describes. -/
theorem describes_of_readRows (parsed : readRows g = .ok b) : Describes g b := by
  obtain ⟨b', parsed', describes⟩ := readRows_of_wellFormed (wellFormed_of_readRows parsed)
  obtain rfl : b = b' := Except.ok.inj (parsed.symm.trans parsed')
  exact describes

/-! ## Refusals -/

theorem kind_of_cellsOnLines {n first : Nat} (refused : cellsOnLines n first lines = .error fault) :
    fault.kind = .configuration := by
  induction lines generalizing first with
  | nil => cases refused
  | cons line lines ih =>
    by_cases wide : line.length = n
    · rw [cellsOnLines_of_wide wide] at refused
      cases later : cellsOnLines n (first + 1) lines with
      | ok rest =>
        rw [later] at refused
        cases refused
      | error fault' =>
        rw [later] at refused
        cases refused
        exact ih later
    · rw [cellsOnLines_of_ragged wide] at refused
      cases refused
      rfl

theorem kind_of_inferAlphabet {size : Int} (refused : inferAlphabet size lines = .error fault) :
    fault.kind = .configuration := by
  unfold inferAlphabet at refused
  dsimp only at refused
  split at refused
  · cases refused
    rfl
  · cases refused

theorem kind_of_checkAlphabet (refused : checkAlphabet alphabet n = .error fault) :
    fault.kind = .configuration := by
  unfold checkAlphabet at refused
  split at refused
  · cases refused
    rfl
  · split at refused
    · cases refused
      rfl
    · cases refused

theorem kind_of_of (refused : of n cells alphabet = .error fault) : fault.kind = .configuration := by
  unfold of at refused
  dsimp only at refused
  split at refused
  · cases refused
    rfl
  · rcases error_of_bind refused with refused | ⟨⟨⟩, -, refused⟩
    · exact kind_of_checkAlphabet refused
    · split at refused
      · cases refused
        rfl
      · cases refused

/-- A grid is refused as a bad input, in whichever way. -/
theorem kind_of_readRows (refused : readRows g = .error fault) : fault.kind = .configuration := by
  rcases error_of_bind refused with refused | ⟨cells, -, refused⟩
  · exact kind_of_cellsOnLines refused
  · rcases error_of_bind refused with refused | ⟨alphabet, -, refused⟩
    · exact kind_of_inferAlphabet refused
    · exact kind_of_of refused

/-! ## Writing -/

/-- The board that a well formed grid describes is written as the grid. -/
theorem toLines_of_describes (wellFormed : WellFormed g) (describes : Describes g b) :
    b.toLines = g := by
  have symbols : ∀ c ∈ b.cells, isSymbol c.value = true := by
    intro c hc
    obtain ⟨x, shown, solid, value⟩ := (describes.cells c).1 hc
    obtain ⟨visible, free⟩ := wellFormed.proper x (mem_seen_iff_showsAt.2 ⟨⟨_, shown⟩, solid⟩)
    rw [value]
    exact isSymbol_singleton.2 ⟨visible, solid, free⟩
  rw [toLines_eq symbols, describes.size]
  refine gridLines_eq wellFormed.square fun s x shown => ?_
  by_cases empty : x = emptySymbol
  · cases here : b.valueAt s with
    | none => exact empty
    | some v =>
      obtain ⟨y, shown', solid, -⟩ := (describes.cells _).1 (valueAt_eq_some_iff.1 here)
      exact absurd ((shown.unique shown').symm.trans empty) solid
  · exact ((charOf_valueAt_iff symbols).2 ((describes.cells _).2 ⟨x, shown, empty, rfl⟩)).1

/-- Reading accepts the well formed grids and nothing else, and refuses the others as bad inputs. What is
read is the board that the grid describes; it is written as the grid, and read again from there. -/
theorem parse_reads_wellFormed (lines : List String) :
    ((∃ b, parse lines = .ok b) ↔ WellFormed (gridRows lines)) ∧
    (∀ fault, parse lines = .error fault → fault.kind = .configuration) ∧
    ∀ b, parse lines = .ok b →
      Describes (gridRows lines) b ∧ b.toLines = gridRows lines ∧ parse b.toLines = .ok b := by
  refine ⟨⟨fun ⟨b, parsed⟩ => wellFormed_of_readRows parsed, fun wellFormed => ?_⟩,
    fun fault => kind_of_readRows, fun b parsed => ?_⟩
  · obtain ⟨b, parsed, -⟩ := readRows_of_wellFormed wellFormed
    exact ⟨b, parsed⟩
  · rw [parse_eq] at parsed
    have describes := describes_of_readRows parsed
    have written := toLines_of_describes (wellFormed_of_readRows parsed) describes
    exact ⟨describes, written, by rw [written, parse_gridRows, parse_eq, parsed]⟩

/-- A grid of two symbols, the alphabet of which takes one more from the default symbols, and a grid that
shows a sign which is no symbol. -/
theorem parse_reads_wellFormed_sample :
    (∃ b, parse [" .x.", "", "...", "..2 "] = .ok b ∧ b.alphabet = ["1", "2", "x"] ∧
      Describes [".x.", "...", "..2"] b ∧ b.toLines = [".x.", "...", "..2"] ∧
      parse [".x.", "...", "..2"] = .ok b) ∧
    ¬WellFormed ["x:", ".."] ∧
    ∃ fault, parse ["x:", ".."] = .error fault ∧ fault.kind = .configuration := by
  constructor
  · obtain ⟨-, -, reads⟩ := parse_reads_wellFormed [" .x.", "", "...", "..2 "]
    have parsed : parse [" .x.", "", "...", "..2 "]
        = .ok ⟨3, [⟨⟨1, 2⟩, "x"⟩, ⟨⟨3, 3⟩, "2"⟩], ["1", "2", "x"], by decide⟩ :=
      eq_ok_of_toOption (by decide +kernel)
    have rows : gridRows [" .x.", "", "...", "..2 "] = [".x.", "...", "..2"] := by decide +kernel
    have read := reads _ parsed
    rw [rows] at read
    obtain ⟨describes, written, again⟩ := read
    exact ⟨_, parsed, rfl, describes, written, written ▸ again⟩
  · obtain ⟨accepts, refuses, -⟩ := parse_reads_wellFormed ["x:", ".."]
    have rows : gridRows ["x:", ".."] = ["x:", ".."] := by decide +kernel
    have refused : parse ["x:", ".."] = .error (.badSymbol ":") := by rfl
    rw [rows, refused] at accepts
    refine ⟨fun wellFormed => ?_, _, refused, refuses _ refused⟩
    obtain ⟨b, parsed⟩ := accepts.2 wellFormed
    cases parsed

end Board

end DancingLinks.Sudoku
