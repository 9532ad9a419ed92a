import DancingLinks.Queens.Rules
import Mathlib.Data.List.Nodup

/-!
# What a queen attacks

The rays of a queen on the board reach exactly the other squares of the board that share a row, a
column or a diagonal with hers (`mem_attacked`). A ray holds the squares at every distance from the
queen, as long as none of them lies off the board (`mem_ray`); between two squares of the board it
never leaves it (`onBoard_between`). A square is reached by one ray only, and once (`nodup_attacked`),
since its distance and its direction tell it (`eq_of_away`).

So the open squares of a board are those that share no line with another square that holds a queen
(`Encoding.mem_openSquares`).
-/

namespace DancingLinks.Queens

variable {size rows columns : Int} {room : Nat} {s t : Square}

/-! ## Rays -/

/-- The square some steps away in a direction. -/
def away (s : Square) (rows columns : Int) (steps : Nat) : Square :=
  s.shift (steps * rows) (steps * columns)

theorem away_succ (s : Square) (rows columns : Int) (steps : Nat) :
    away s rows columns (steps + 1) = away (s.shift rows columns) rows columns steps := by
  simp only [away, Square.shift, Square.mk.injEq, Int.natCast_add, Int.cast_ofNat_Int, Int.add_mul,
    Int.one_mul]
  omega

theorem away_one (s : Square) (rows columns : Int) :
    away s rows columns 1 = s.shift rows columns := by
  rw [away_succ]
  simp [away, Square.shift]

/-- A ray holds the squares in its direction, up to the first one off the board. -/
theorem mem_ray : t ∈ ray size rows columns room s ↔
    ∃ steps, 1 ≤ steps ∧ steps ≤ room ∧ t = away s rows columns steps ∧
      ∀ fewer, 1 ≤ fewer → fewer ≤ steps → (away s rows columns fewer).OnBoard size := by
  induction room generalizing s with
  | zero =>
    simp only [ray, List.not_mem_nil, false_iff]
    rintro ⟨steps, some, none, -⟩
    omega
  | succ room ih =>
    have next := away_one s rows columns
    simp only [ray]
    split
    · next onBoard =>
      rw [List.mem_cons, ih]
      constructor
      · rintro (rfl | ⟨steps, some, le, rfl, all⟩)
        · refine ⟨1, Nat.le_refl 1, by omega, next.symm, fun fewer low high => ?_⟩
          obtain rfl : fewer = 1 := by omega
          rwa [next]
        · refine ⟨steps + 1, by omega, by omega, (away_succ ..).symm, fun fewer low high => ?_⟩
          obtain ⟨before, rfl⟩ : ∃ before, fewer = before + 1 := ⟨fewer - 1, by omega⟩
          cases before with
          | zero => rwa [next]
          | succ before =>
            rw [away_succ]
            exact all (before + 1) (by omega) (by omega)
      · rintro ⟨steps, some, le, rfl, all⟩
        obtain ⟨before, rfl⟩ : ∃ before, steps = before + 1 := ⟨steps - 1, by omega⟩
        cases before with
        | zero => exact .inl next
        | succ before =>
          refine .inr ⟨before + 1, by omega, by omega, away_succ .., fun fewer low high => ?_⟩
          rw [← away_succ]
          exact all (fewer + 1) (by omega) (by omega)
    · next off =>
      -- The first square of the ray lies off the board already.
      simp only [List.not_mem_nil, false_iff]
      rintro ⟨steps, some, -, -, all⟩
      have first := all 1 (Nat.le_refl 1) some
      rw [next] at first
      exact off first

/-- Fewer steps lead to a place between. -/
theorem mul_between {fewer steps : Nat} (le : fewer ≤ steps) (d : Int) :
    0 ≤ fewer * d ∧ fewer * d ≤ steps * d ∨ steps * d ≤ fewer * d ∧ fewer * d ≤ 0 := by
  have cast : (fewer : Int) ≤ steps := Int.ofNat_le.2 le
  have nonneg : (0 : Int) ≤ fewer := Int.natCast_nonneg fewer
  rcases Int.le_total 0 d with up | down
  · exact .inl ⟨Int.mul_nonneg nonneg up, Int.mul_le_mul_of_nonneg_right cast up⟩
  · exact .inr ⟨Int.mul_le_mul_of_nonpos_right cast down,
      Int.mul_nonpos_of_nonneg_of_nonpos nonneg down⟩

/-- The board has no holes. -/
theorem onBoard_between {fewer steps : Nat} (le : fewer ≤ steps) (start : s.OnBoard size)
    (stop : (away s rows columns steps).OnBoard size) :
    (away s rows columns fewer).OnBoard size := by
  have vertical := mul_between le rows
  have horizontal := mul_between le columns
  simp only [Square.OnBoard, away, Square.shift] at *
  omega

/-! ## Attacks -/

/-- How many steps a queen needs to come from one square to another one of her lines. -/
def distance (s t : Square) : Nat := max (t.row - s.row).natAbs (t.column - s.column).natAbs

theorem distance_away {d : Int × Int} (mem : d ∈ directions) (steps : Nat) :
    distance s (away s d.1 d.2 steps) = steps := by
  simp only [directions, List.mem_cons, List.not_mem_nil, or_false] at mem
  rcases mem with rfl | rfl | rfl | rfl | rfl | rfl | rfl | rfl <;>
    simp only [distance, away, Square.shift] <;> omega

/-- Steps in one of the directions lead to another square. -/
theorem away_ne {d : Int × Int} (mem : d ∈ directions) {steps : Nat} (some : 1 ≤ steps) :
    away s d.1 d.2 steps ≠ s := by
  intro same
  have far := distance_away (s := s) mem steps
  rw [same] at far
  simp only [distance, Int.sub_self] at far
  omega

/-- A square tells the direction and the number of steps that lead to it. -/
theorem eq_of_away {d d' : Int × Int} (mem : d ∈ directions) (mem' : d' ∈ directions)
    {steps steps' : Nat} (some : 1 ≤ steps)
    (same : away s d.1 d.2 steps = away s d'.1 d'.2 steps') : steps = steps' ∧ d = d' := by
  have far := distance_away (s := s) mem steps
  rw [same, distance_away mem'] at far
  subst far
  simp only [away, Square.shift, Square.mk.injEq] at same
  have cancel {x y : Int} (eq : steps' * x = steps' * y) : x = y :=
    Int.eq_of_mul_eq_mul_left (by omega) eq
  exact ⟨rfl, Prod.ext (cancel (by omega)) (cancel (by omega))⟩

theorem distance_lt (hs : s.OnBoard size) (ht : t.OnBoard size) : distance s t < size.toNat := by
  simp only [Square.OnBoard, distance] at *
  omega

/-- The signs of a difference between two squares are a direction. -/
theorem sign_mem_directions {a b : Int} (differ : a ≠ 0 ∨ b ≠ 0) :
    (a.sign, b.sign) ∈ directions := by
  have signs : ∀ n : Int, n.sign = -1 ∨ n.sign = 0 ∧ n = 0 ∨ n.sign = 1 := by
    intro n
    rcases Int.lt_trichotomy n 0 with neg | rfl | pos
    · exact .inl (Int.sign_eq_neg_one_of_neg neg)
    · exact .inr (.inl ⟨rfl, rfl⟩)
    · exact .inr (.inr (Int.sign_eq_one_of_pos pos))
  rcases signs a with ha | ⟨ha, rfl⟩ | ha <;> rcases signs b with hb | ⟨hb, rfl⟩ | hb
  case inr.inl.inr.inl => exact absurd differ (by decide)
  all_goals rw [ha, hb]; decide

/-- Steps in the direction of a difference make up the difference. -/
theorem mul_sign {d : Int} {steps : Nat} (whole : d = 0 ∨ d.natAbs = steps) :
    steps * d.sign = d := by
  rcases whole with rfl | rfl
  · exact Int.mul_zero _
  · rw [Int.mul_comm, Int.sign_mul_natAbs]

/-- A square on a common line is some steps away in one of the directions. -/
theorem Aligned.exists_away (aligned : Aligned s t) (differ : t ≠ s) :
    ∃ d ∈ directions, t = away s d.1 d.2 (distance s t) := by
  obtain ⟨row, column⟩ := s
  obtain ⟨row', column'⟩ := t
  refine ⟨((row' - row).sign, (column' - column).sign), sign_mem_directions ?_, ?_⟩
  · simp only [ne_eq, Square.mk.injEq] at differ
    omega
  -- Either one of the differences vanishes, or both are as large as the distance.
  · have rows : (distance ⟨row, column⟩ ⟨row', column'⟩ : Int) * (row' - row).sign = row' - row := by
      refine mul_sign ?_
      simp only [Aligned, distance] at *
      omega
    have columns : (distance ⟨row, column⟩ ⟨row', column'⟩ : Int) * (column' - column).sign
        = column' - column := by
      refine mul_sign ?_
      simp only [Aligned, distance] at *
      omega
    simp only [away, Square.shift, rows, columns, Square.mk.injEq]
    omega

/-- Steps in one of the directions stay on a common line. -/
theorem aligned_away {d : Int × Int} (mem : d ∈ directions) (steps : Nat) :
    Aligned s (away s d.1 d.2 steps) := by
  simp only [directions, List.mem_cons, List.not_mem_nil, or_false] at mem
  rcases mem with rfl | rfl | rfl | rfl | rfl | rfl | rfl | rfl <;>
    simp only [Aligned, away, Square.shift] <;> omega

/-- A queen on the board attacks the other squares of the board that share a line with hers. -/
theorem mem_attacked (onBoard : s.OnBoard size) :
    t ∈ attacked size s ↔ t.OnBoard size ∧ t ≠ s ∧ Aligned s t := by
  simp only [attacked, List.mem_flatMap, mem_ray]
  constructor
  · rintro ⟨d, mem, steps, some, -, rfl, all⟩
    exact ⟨all steps some (Nat.le_refl steps), away_ne mem some, aligned_away mem steps⟩
  · rintro ⟨there, differ, aligned⟩
    obtain ⟨d, mem, reached⟩ := aligned.exists_away differ
    have near := distance_lt onBoard there
    have some : distance s t ≠ 0 := by
      intro none
      rw [none] at reached
      exact differ (by simp [reached, away, Square.shift])
    refine ⟨d, mem, distance s t, by omega, Nat.le_of_lt near, reached, fun fewer _ le => ?_⟩
    exact onBoard_between le onBoard (reached ▸ there)

/-- Two squares of the board attack each other, or neither attacks the other. -/
theorem mem_attacked_comm (hs : s.OnBoard size) (ht : t.OnBoard size) :
    t ∈ attacked size s ↔ s ∈ attacked size t := by
  rw [mem_attacked hs, mem_attacked ht]
  exact ⟨fun ⟨_, differ, aligned⟩ => ⟨hs, differ.symm, aligned.symm⟩,
    fun ⟨_, differ, aligned⟩ => ⟨ht, differ.symm, aligned.symm⟩⟩

/-- A ray moves on with every step. -/
theorem nodup_ray {d : Int × Int} (mem : d ∈ directions) (room : Nat) (s : Square) :
    (ray size d.1 d.2 room s).Nodup := by
  induction room generalizing s with
  | zero => exact .nil
  | succ room ih =>
    unfold ray
    dsimp only
    split
    · refine List.nodup_cons.2 ⟨fun back => ?_, ih _⟩
      obtain ⟨steps, some, -, same, -⟩ := mem_ray.1 back
      exact away_ne mem some same.symm
    · exact .nil

/-- No square is reached twice. -/
theorem nodup_attacked (size : Int) (s : Square) : (attacked size s).Nodup := by
  have directions_nodup : directions.Nodup := by decide
  refine List.nodup_flatMap.2 ⟨fun d mem => nodup_ray mem _ s, ?_⟩
  refine directions_nodup.imp_of_mem fun {d d'} mem mem' differ t reached reached' => differ ?_
  obtain ⟨steps, some, -, rfl, -⟩ := mem_ray.1 reached
  obtain ⟨steps', -, -, same, -⟩ := mem_ray.1 reached'
  exact (eq_of_away mem mem' some same).2

namespace Encoding

variable {e : Encoding}

/-- The open squares are those of the board that no queen attacks, -/
theorem mem_openSquares_iff :
    s ∈ e.openSquares ↔ s.OnBoard e.size ∧ ∀ q ∈ e.queens, s ∉ attacked e.size q := by
  simp only [openSquares, List.mem_filter, mem_allSquares, List.mem_flatMap, decide_eq_true_eq,
    not_exists, not_and]

/-- so they share no line with another square that holds a queen. -/
theorem mem_openSquares (given : ∀ q ∈ e.queens, q.OnBoard e.size) :
    s ∈ e.openSquares ↔ s.OnBoard e.size ∧ ∀ q ∈ e.queens, Aligned q s → q = s := by
  rw [mem_openSquares_iff]
  refine and_congr_right fun onBoard => forall₂_congr fun q mem => ?_
  rw [mem_attacked (given q mem)]
  grind

end Encoding

end DancingLinks.Queens
