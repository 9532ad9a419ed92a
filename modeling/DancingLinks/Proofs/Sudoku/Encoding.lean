import DancingLinks.Proofs.Square
import DancingLinks.Proofs.Sudoku.Boxes
import DancingLinks.Proofs.Sudoku.Names
import Mathlib.Data.List.Perm.Subperm

/-!
# The encoding of a sound board

A board is `Sound` when its alphabet has one symbol per square of a row, all of them different, and
its given cells are `Possible`: they lie on the board and their values are symbols of the alphabet.
Then the demands of the board are the demands that it `Poses` (`mem_allDemands`), all of them
different, and its candidates are the possible cells that no given cell excludes
(`mem_candidates`).
-/

namespace DancingLinks.Sudoku

variable {n : Int} {alphabet : List String} {c : Cell} {d : Demand} {s : Square}

/-! ## Alphabets -/

/-- An alphabet is accepted when it is large enough and holds symbols only. -/
theorem checkAlphabet_eq_ok_iff :
    checkAlphabet alphabet n = .ok () ↔
      n ≤ alphabet.length ∧ ∀ v ∈ alphabet, isSymbol v = true := by
  unfold checkAlphabet
  split
  · next small =>
    constructor
    · nofun
    · rintro ⟨large, -⟩
      omega
  · next large =>
    split
    · next symbol found =>
      constructor
      · nofun
      · rintro ⟨-, symbols⟩
        have mem := List.mem_of_find?_eq_some found
        have refused := List.find?_some found
        rw [symbols symbol mem] at refused
        cases refused
    · next found =>
      refine ⟨fun _ => ⟨by omega, fun v hv => ?_⟩, fun _ => rfl⟩
      simpa using List.find?_eq_none.1 found v hv

/-- There are not so many symbols that their number could be too long to be written. -/
theorem length_lt_writeBound (different : alphabet.Nodup)
    (symbols : ∀ v ∈ alphabet, isSymbol v = true) : alphabet.length < Text.Integer.writeBound := by
  have nodup : (alphabet.map String.toList).Nodup :=
    different.map fun v w same => String.toList_inj.1 same
  have single : alphabet.map String.toList ⊆ (List.range UInt32.size).map fun n => [Char.ofNat n] := by
    intro cs mem
    obtain ⟨v, hv, rfl⟩ := List.mem_map.1 mem
    obtain ⟨x, single, -, -⟩ := symbol_toList (symbols v hv)
    rw [single]
    exact List.mem_map.2 ⟨x.toNat, List.mem_range.2 x.val.toNat_lt, by rw [Char.ofNat_toNat]⟩
  have length := (nodup.subperm single).length_le
  rw [List.length_map, List.length_map, List.length_range] at length
  have grows : ∀ digits, 10 ≤ digits → 10 ^ 10 ≤ Nat.pow 10 digits := fun _ =>
    Nat.pow_le_pow_right (by decide)
  have bound : 10 ^ 10 ≤ Text.Integer.writeBound := by
    unfold Text.Integer.writeBound
    exact grows _ (by decide)
  calc alphabet.length ≤ UInt32.size := length
    _ < 10 ^ 10 := by decide
    _ ≤ Text.Integer.writeBound := bound

/-- Nothing is erased from a list without repetitions. -/
theorem eraseDups_of_nodup {α : Type} [DecidableEq α] {xs : List α} (nodup : xs.Nodup) :
    xs.eraseDups = xs := by
  induction xs with
  | nil => rfl
  | cons x xs ih =>
    obtain ⟨new, nodup⟩ := List.nodup_cons.1 nodup
    have others : (xs.filter fun y => !y == x) = xs := by
      refine List.filter_eq_self.2 fun y mem => ?_
      have differ : y ≠ x := fun same => new (same ▸ mem)
      simp [differ]
    rw [List.eraseDups_cons, others, ih nodup]

namespace Encoding

variable {e : Encoding}

/-! ## Sound boards -/

/-- The side of a box, when there are boxes. -/
def side (e : Encoding) : Int := isqrt e.size.toNat

/-- The cell lies on the board, and its value is a symbol of the alphabet. -/
def Possible (e : Encoding) (c : Cell) : Prop := c.square.OnBoard e.size ∧ c.value ∈ e.alphabet

/-- The alphabet fits the board, and the given cells can stand on it. -/
structure Sound (e : Encoding) : Prop where
  size : 1 ≤ e.size
  length : e.alphabet.length = e.size.toNat
  different : e.alphabet.Nodup
  symbols : ∀ v ∈ e.alphabet, isSymbol v = true
  squares : (e.given.map Cell.square).Nodup
  given : ∀ c ∈ e.given, e.Possible c
  boxes : e.boxes = true ↔ e.side * e.side = e.size

namespace Sound

theorem symbols_eq (sound : e.Sound) : e.symbols = e.alphabet :=
  List.take_of_length_le (Nat.le_of_eq sound.length)

theorem side_pos (sound : e.Sound) : 1 ≤ e.side := by
  have size := sound.size
  have pos := isqrt_pos (n := e.size.toNat) (by omega)
  rw [side]
  omega

/-- Numbers on the board are short, and values are symbols. -/
theorem proper (sound : e.Sound) (possible : e.Possible c) : c.Proper := by
  obtain ⟨⟨top, bottom, left, right⟩, value⟩ := possible
  have bound := length_lt_writeBound sound.different sound.symbols
  have length := sound.length
  exact ⟨by omega, by omega, by omega, by omega, sound.symbols _ value⟩

end Sound

/-! ## Demands -/

/-- The cell meets a demand. -/
def Meets (e : Encoding) (c : Cell) : Demand → Prop
  | .filled s => c.square = s
  | .inRow number value => c.square.row = number ∧ c.value = value
  | .inColumn number value => c.square.column = number ∧ c.value = value
  | .inBox number value => e.boxes = true ∧ boxNumber e.side c.square = number ∧ c.value = value

/-- The board poses a demand. -/
def Poses (e : Encoding) : Demand → Prop
  | .filled s => s.OnBoard e.size
  | .inRow number value => number ∈ oneTo e.size ∧ value ∈ e.alphabet
  | .inColumn number value => number ∈ oneTo e.size ∧ value ∈ e.alphabet
  | .inBox number value => e.boxes = true ∧ number ∈ oneTo e.size ∧ value ∈ e.alphabet

/-- The demands that a cell on the board meets. -/
def met (e : Encoding) (c : Cell) : List Demand :=
  [.filled c.square, .inRow c.square.row c.value, .inColumn c.square.column c.value]
    ++ if e.boxes then [.inBox (boxNumber e.side c.square) c.value] else []

theorem mem_met : d ∈ e.met c ↔ e.Meets c d := by
  unfold met
  cases boxes : e.boxes <;> cases d <;> simp [Meets, boxes, eq_comm]

instance (e : Encoding) (c : Cell) (d : Demand) : Decidable (e.Meets c d) :=
  decidable_of_iff _ mem_met

theorem nodup_met (e : Encoding) (c : Cell) : (e.met c).Nodup := by
  unfold met
  cases e.boxes <;> simp

/-- On the board nothing goes wrong with the box of a cell. -/
theorem demands_eq (sound : e.Sound) (possible : e.Possible c) : e.demands c = .ok (e.met c) := by
  have side : isqrt e.size.toNat ≠ 0 := by
    have pos := sound.side_pos
    rw [Encoding.side] at pos
    omega
  unfold demands met
  cases e.boxes with
  | false => rfl
  | true =>
    simp only [boxDemand_of_onBoard possible.1, box, if_neg side]
    rfl

theorem mem_allDemands (sound : e.Sound) : d ∈ e.allDemands ↔ e.Poses d := by
  unfold allDemands
  rw [sound.symbols_eq]
  cases boxes : e.boxes <;> cases d <;> simp [Poses, boxes, mem_allSquares]

/-- Demands that are told apart by their numbers and values are listed once. -/
theorem nodup_each {demand : Int → String → Demand} (different : alphabet.Nodup)
    (inj : ∀ i j v w, demand i v = demand j w → i = j ∧ v = w) (n : Int) :
    ((oneTo n).flatMap fun number => alphabet.map (demand number)).Nodup := by
  refine List.nodup_flatMap.2 ⟨fun i _ => ?_, (nodup_oneTo n).imp fun {i j} differ => ?_⟩
  · exact different.map fun v w same => (inj i i v w same).2
  · intro d hi hj
    obtain ⟨v, -, rfl⟩ := List.mem_map.1 hi
    obtain ⟨w, -, same⟩ := List.mem_map.1 hj
    exact differ (inj j i w v same).1.symm

/-- No demand is posed twice. -/
theorem nodup_allDemands (sound : e.Sound) : e.allDemands.Nodup := by
  have squares : ((allSquares e.size).map Demand.filled).Nodup :=
    (nodup_allSquares e.size).map fun s t same => Demand.filled.inj same
  have rows := nodup_each sound.different (fun _ _ _ _ => Demand.inRow.inj) e.size
  have columns := nodup_each sound.different (fun _ _ _ _ => Demand.inColumn.inj) e.size
  have boxes := nodup_each sound.different (fun _ _ _ _ => Demand.inBox.inj) e.size
  unfold allDemands
  rw [sound.symbols_eq, eraseDups_of_nodup sound.different]
  -- Demands of different kinds differ.
  refine ((squares.append rows ?_).append columns ?_).append ?_ ?_
  · intro d first second
    cases d <;> simp at first second
  · intro d first second
    cases d <;> simp at first second
  · split
    · exact boxes
    · exact .nil
  · split
    · intro d first second
      cases d <;> simp at first second
    · exact List.disjoint_nil_right _

/-- A cell meets demands of its board. -/
theorem Meets.poses (sound : e.Sound) (possible : e.Possible c) (meets : e.Meets c d) :
    e.Poses d := by
  obtain ⟨onBoard, value⟩ := possible
  cases d with
  | filled s =>
    cases meets
    exact onBoard
  | inRow number v =>
    obtain ⟨rfl, rfl⟩ := meets
    exact ⟨onBoard.row_mem, value⟩
  | inColumn number v =>
    obtain ⟨rfl, rfl⟩ := meets
    exact ⟨onBoard.column_mem, value⟩
  | inBox number v =>
    obtain ⟨boxes, rfl, rfl⟩ := meets
    have square := sound.boxes.1 boxes
    rw [← square] at onBoard
    exact ⟨boxes, square ▸ boxNumber_mem sound.side_pos onBoard, value⟩

/-- Values are demanded when they are symbols of the alphabet. -/
theorem value_mem_symbols (mem : d ∈ e.allDemands) : ∀ value ∈ d.value?, value ∈ e.symbols := by
  rintro value isValue
  unfold allDemands at mem
  cases boxes : e.boxes <;> cases d <;> cases isValue <;> simp [boxes] at mem <;> exact mem.2

theorem filled_mem_allDemands : .filled s ∈ e.allDemands ↔ s.OnBoard e.size := by
  unfold allDemands
  cases e.boxes <;> simp [mem_allSquares]

theorem inRow_mem_allDemands {i : Int} {v : String} :
    .inRow i v ∈ e.allDemands ↔ i ∈ oneTo e.size ∧ v ∈ e.symbols := by
  unfold allDemands
  cases e.boxes <;> simp

/-! ## Candidates -/

/-- The candidates before they are sorted. -/
theorem candidates_perm (sound : e.Sound) :
    e.candidates.Perm (e.given ++ ((allSquares e.size).filter
      (· ∉ e.given.map Cell.square)).flatMap fun square => e.alphabet.map (Cell.mk square)) := by
  unfold candidates
  rw [sound.symbols_eq]
  exact sorted_perm _

/-- The candidates are the possible cells that no other given cell excludes. -/
theorem mem_candidates (sound : e.Sound) :
    c ∈ e.candidates ↔ e.Possible c ∧ ∀ g ∈ e.given, g.square = c.square → g = c := by
  rw [(candidates_perm sound).mem_iff, List.mem_append]
  constructor
  · rintro (given | free)
    · exact ⟨sound.given c given, fun g hg same => List.inj_on_of_nodup_map sound.squares hg given same⟩
    · obtain ⟨s, hs, mem⟩ := List.mem_flatMap.1 free
      obtain ⟨v, hv, rfl⟩ := List.mem_map.1 mem
      obtain ⟨onBoard, notTaken⟩ := List.mem_filter.1 hs
      refine ⟨⟨mem_allSquares.1 onBoard, hv⟩, fun g hg same => ?_⟩
      exact absurd (List.mem_map.2 ⟨g, hg, same⟩) (of_decide_eq_true notTaken)
  · rintro ⟨⟨onBoard, value⟩, alone⟩
    by_cases taken : c.square ∈ e.given.map Cell.square
    · obtain ⟨g, hg, same⟩ := List.mem_map.1 taken
      exact .inl (alone g hg same ▸ hg)
    · refine .inr (List.mem_flatMap.2 ⟨c.square, ?_, List.mem_map.2 ⟨c.value, value, rfl⟩⟩)
      exact List.mem_filter.2 ⟨mem_allSquares.2 onBoard, decide_eq_true taken⟩

/-- Every square has a candidate. -/
theorem exists_candidate (sound : e.Sound) (onBoard : s.OnBoard e.size) :
    ∃ c ∈ e.candidates, c.square = s := by
  by_cases taken : ∃ g ∈ e.given, g.square = s
  · obtain ⟨g, hg, rfl⟩ := taken
    refine ⟨g, (mem_candidates sound).2 ⟨sound.given g hg, fun g' hg' same => ?_⟩, rfl⟩
    exact List.inj_on_of_nodup_map sound.squares hg' hg same
  · have any : e.alphabet ≠ [] := by
      intro none
      have size := sound.size
      have length := sound.length
      rw [none, List.length_nil] at length
      omega
    obtain ⟨v, hv⟩ := List.exists_mem_of_ne_nil _ any
    refine ⟨⟨s, v⟩, (mem_candidates sound).2 ⟨⟨onBoard, hv⟩, fun g hg same => ?_⟩, rfl⟩
    exact absurd ⟨g, hg, same⟩ taken

theorem nodup_candidates (sound : e.Sound) : e.candidates.Nodup := by
  refine (candidates_perm sound).nodup_iff.2 (sound.squares.of_map.append ?_ ?_)
  · refine List.nodup_flatMap.2 ⟨fun s _ => ?_, ?_⟩
    · exact sound.different.map fun v w same => (Cell.mk.inj same).2
    · refine ((nodup_allSquares e.size).filter _).imp fun {s t} differ c hs ht => ?_
      obtain ⟨_, -, rfl⟩ := List.mem_map.1 hs
      obtain ⟨_, -, same⟩ := List.mem_map.1 ht
      exact differ (Cell.mk.inj same).1.symm
  · intro c given free
    obtain ⟨s, hs, mem⟩ := List.mem_flatMap.1 free
    obtain ⟨v, -, rfl⟩ := List.mem_map.1 mem
    exact of_decide_eq_true (List.mem_filter.1 hs).2 (List.mem_map_of_mem given)

end Encoding

end DancingLinks.Sudoku
