import Mathlib.Data.Finset.Dedup
import DancingLinks.Proofs.ExactCover.Branches

/-!
# Algorithm X is exact

The choices along a branch are a cover (`isCover_of_mem_branches`), every cover is found along a
branch (`exists_branch`), and no two branches make the same choices (`pairwise_branches`). All three
come from one fact about what a choice leaves: the rest of a cover covers it, and nothing else does
(`IsCover.cons`, `IsCover.of_cons`).

When choices have different numbers a cover is also told by the set of its numbers: every set that
solves what is left when some columns are covered (`Problem.Solves`) is found, nothing else is, and
none is found twice (`mem_map_numbers_without`, `nodup_map_numbers`).
-/

namespace DancingLinks.Problem

variable {κ : Type} [DecidableEq κ] {p : Problem κ} {s : Selector} {r r' : Choice κ} {c : κ}
  {rows rows' rest : List (Choice κ)} {branch : List (Choice κ × κ)} {T : Finset Nat}

/-- Choices use only columns of the problem. -/
def Declares (p : Problem κ) : Prop := ∀ r ∈ p.choices, ∀ c ∈ r.columns, c ∈ p.columns

/-- What is left has all columns that are still used. -/
theorem Declares.without (declares : p.Declares) (covered : List κ) :
    (p.without covered).Declares := by
  intro r hr c used
  obtain ⟨hr, avoids⟩ := mem_choices_without.1 hr
  exact mem_columns_without.2 ⟨declares r hr c used, avoids c used⟩

/-! ## How often a column is used -/

theorem uses_cons (r : Choice κ) (rest : List (Choice κ)) (c : κ) :
    uses (r :: rest) c = uses rest c + if c ∈ r.columns then 1 else 0 := by
  simp only [uses, List.countP_cons, decide_eq_true_eq]

theorem uses_eq_zero : uses rest c = 0 ↔ ∀ r ∈ rest, c ∉ r.columns := by
  simp [uses, List.countP_eq_zero]

/-- Of elements that have a property at most once, only one has it. -/
theorem eq_of_countP_le_one {α : Type} {has : α → Bool} {xs : List α} {x y : α}
    (once : xs.countP has ≤ 1) (hx : x ∈ xs) (hy : y ∈ xs) (hasX : has x = true)
    (hasY : has y = true) : x = y := by
  rw [List.countP_eq_length_filter] at once
  have mem : x ∈ xs.filter has := List.mem_filter.2 ⟨hx, hasX⟩
  have mem' : y ∈ xs.filter has := List.mem_filter.2 ⟨hy, hasY⟩
  obtain ⟨z, only⟩ := List.length_eq_one_iff.1
    (Nat.le_antisymm once (List.length_pos_of_mem mem))
  rw [only, List.mem_singleton] at mem mem'
  rw [mem, mem']

/-- Of choices that use a column at most once, only one uses it. -/
theorem eq_of_uses_le_one (once : uses rows c ≤ 1) (hr : r ∈ rows) (hr' : r' ∈ rows)
    (used : c ∈ r.columns) (used' : c ∈ r'.columns) : r = r' :=
  eq_of_countP_le_one once hr hr' (decide_eq_true used) (decide_eq_true used')

/-! ## Covers -/

theorem IsCover.perm (cover : p.IsCover rows) (same : rows.Perm rows') : p.IsCover rows' := by
  have uses_eq : ∀ c, uses rows' c = uses rows c := fun c => (same.countP_eq _).symm
  refine ⟨same.nodup_iff.1 cover.distinct, fun r hr => cover.available r (same.mem_iff.2 hr),
    fun r hr => cover.useful r (same.mem_iff.2 hr), fun c hc => ?_, fun c hc => ?_⟩
  · rw [uses_eq]
    exact cover.primary c hc
  · rw [uses_eq]
    exact cover.secondary c hc

/-- A cover uses every column at most once. -/
theorem IsCover.uses_le_one (cover : p.IsCover rows) (hc : c ∈ p.columns) :
    uses rows c ≤ 1 := by
  rcases List.mem_append.1 hc with hc | hc
  · exact Nat.le_of_eq (cover.primary c hc)
  · exact cover.secondary c hc

/-- A useful choice, and a cover of what it leaves, are a cover. -/
theorem IsCover.cons (cover : (p.without r.columns).IsCover rest) (hr : r ∈ p.choices)
    (hc : c ∈ p.primary) (used : c ∈ r.columns) : p.IsCover (r :: rest) := by
  have avoids : ∀ r' ∈ rest, r' ∈ p.choices ∧ ∀ d ∈ r'.columns, d ∉ r.columns := fun r' hr' =>
    mem_choices_without.1 (cover.available r' hr')
  -- A column of the choice is used by it alone, another one as often as by the rest.
  have own : ∀ d ∈ r.columns, uses (r :: rest) d = 1 := fun d hd => by
    have none : uses rest d = 0 := uses_eq_zero.2 fun r' hr' hd' => (avoids r' hr').2 d hd' hd
    rw [uses_cons, none, if_pos hd]
  have other : ∀ d, d ∉ r.columns → uses (r :: rest) d = uses rest d := fun d hd => by
    rw [uses_cons, if_neg hd, Nat.add_zero]
  refine ⟨List.nodup_cons.2 ⟨fun mem => (avoids r mem).2 c used used, cover.distinct⟩,
    List.forall_mem_cons.2 ⟨hr, fun r' hr' => (avoids r' hr').1⟩,
    List.forall_mem_cons.2 ⟨⟨c, hc, used⟩, fun r' hr' => ?_⟩, fun d hd => ?_, fun d hd => ?_⟩
  · obtain ⟨d, hd, used'⟩ := cover.useful r' hr'
    exact ⟨d, (mem_primary_without.1 hd).1, used'⟩
  · by_cases mine : d ∈ r.columns
    · exact own d mine
    · rw [other d mine]
      exact cover.primary d (mem_primary_without.2 ⟨hd, mine⟩)
  · by_cases mine : d ∈ r.columns
    · exact Nat.le_of_eq (own d mine)
    · rw [other d mine]
      exact cover.secondary d (mem_secondary_without.2 ⟨hd, mine⟩)

/-- The rest of a cover covers what its first choice leaves. -/
theorem IsCover.of_cons (declares : p.Declares) (cover : p.IsCover (r :: rest)) :
    (p.without r.columns).IsCover rest := by
  have hr := cover.available r List.mem_cons_self
  have apart : ∀ r' ∈ rest, ∀ d ∈ r'.columns, d ∉ r.columns := fun r' hr' d hd' hd => by
    have same := eq_of_uses_le_one (cover.uses_le_one (declares r hr d hd)) List.mem_cons_self
      (List.mem_cons_of_mem _ hr') hd hd'
    exact (List.nodup_cons.1 cover.distinct).1 (same ▸ hr')
  have other : ∀ d, d ∉ r.columns → uses rest d = uses (r :: rest) d := fun d hd => by
    rw [uses_cons, if_neg hd, Nat.add_zero]
  refine ⟨(List.nodup_cons.1 cover.distinct).2, fun r' hr' => ?_, fun r' hr' => ?_, fun d hd => ?_,
    fun d hd => ?_⟩
  · exact mem_choices_without.2
      ⟨cover.available r' (List.mem_cons_of_mem _ hr'), apart r' hr'⟩
  · obtain ⟨d, hd, used⟩ := cover.useful r' (List.mem_cons_of_mem _ hr')
    exact ⟨d, mem_primary_without.2 ⟨hd, apart r' hr' d used⟩, used⟩
  · obtain ⟨hd, left⟩ := mem_primary_without.1 hd
    rw [other d left]
    exact cover.primary d hd
  · obtain ⟨hd, left⟩ := mem_secondary_without.1 hd
    rw [other d left]
    exact cover.secondary d hd

/-- Only no choices at all cover a problem without primary columns. -/
theorem isCover_of_primary_eq_nil (done : p.primary = []) : p.IsCover rows ↔ rows = [] := by
  constructor
  · intro cover
    refine List.eq_nil_iff_forall_not_mem.2 fun r hr => ?_
    obtain ⟨c, hc, -⟩ := cover.useful r hr
    rw [done] at hc
    cases hc
  · rintro rfl
    exact ⟨List.nodup_nil, by simp, by simp, by simp [done], by simp [uses]⟩

/-! ## Branches and covers -/

/-- The choices along a branch are a cover. -/
theorem isCover_of_mem_branches (mem : branch ∈ p.branches s) :
    p.IsCover (branch.map Prod.fst) := by
  induction branch generalizing p with
  | nil =>
    cases pivot : p.pivot? s with
    | none => exact (isCover_of_primary_eq_nil (pivot?_eq_none.1 pivot)).2 rfl
    | some c => exact absurd mem (not_nil_mem_branches pivot)
  | cons b branch ih =>
    cases pivot : p.pivot? s with
    | none => simp [branches_of_none pivot] at mem
    | some c =>
      obtain ⟨hr, used, -, rest⟩ := (cons_mem_branches pivot).1 mem
      exact (ih rest).cons hr (pivot?_mem pivot) used

/-- Every cover is found along a branch. -/
theorem exists_branch (declares : p.Declares) (cover : p.IsCover rows) :
    ∃ branch ∈ p.branches s, (branch.map Prod.fst).Perm rows := by
  induction p using @descend κ _ _ s generalizing rows with
  | step p ih =>
    cases pivot : p.pivot? s with
    | none =>
      have none := (isCover_of_primary_eq_nil (pivot?_eq_none.1 pivot)).1 cover
      exact ⟨[], by simp [branches_of_none pivot], by simp [none]⟩
    | some c =>
      -- The cover has a choice that uses the pivot; its other choices cover what that one leaves.
      have once : uses rows c = 1 := cover.primary c (pivot?_mem pivot)
      obtain ⟨r, hr, used⟩ : ∃ r ∈ rows, c ∈ r.columns := by
        by_contra none
        have zero : uses rows c = 0 := uses_eq_zero.2 fun r hr used => none ⟨r, hr, used⟩
        omega
      have first := List.perm_cons_erase hr
      have available := cover.available r hr
      obtain ⟨branch, mem, same⟩ := ih c r pivot available used (declares.without _)
        (IsCover.of_cons declares (cover.perm first))
      exact ⟨(r, c) :: branch, (cons_mem_branches pivot).2 ⟨available, used, rfl, mem⟩,
        (same.cons r).trans first.symm⟩

/-- No two branches make the same choices. -/
theorem pairwise_branches (distinct : p.choices.Nodup) :
    (p.branches s).Pairwise fun a b => ¬(a.map Prod.fst).Perm (b.map Prod.fst) := by
  induction p using @descend κ _ _ s with
  | step p ih =>
    cases pivot : p.pivot? s with
    | none => simp [branches_of_none pivot]
    | some c =>
      have cover : ∀ r ∈ p.choices.filter (c ∈ ·.columns),
          ∀ branch ∈ ((p.without r.columns).branches s).map ((r, c) :: ·),
            p.IsCover (branch.map Prod.fst) ∧ r ∈ branch.map Prod.fst ∧ c ∈ r.columns := by
        intro r hr branch mem
        have used : c ∈ r.columns := by simpa using (List.mem_filter.1 hr).2
        refine ⟨isCover_of_mem_branches (s := s) ?_, ?_, used⟩
        · rw [branches_eq pivot]
          exact List.mem_flatMap.2 ⟨r, hr, mem⟩
        · obtain ⟨rest, -, rfl⟩ := List.mem_map.1 mem
          exact List.mem_cons_self
      rw [branches_eq pivot, List.pairwise_flatMap]
      constructor
      · intro r hr
        obtain ⟨hr, used⟩ := List.mem_filter.1 hr
        rw [List.pairwise_map]
        refine (ih c r pivot hr (by simpa using used) (distinct.filter _)).imp fun differ same => ?_
        exact differ (List.perm_cons r |>.1 same)
      · refine List.Pairwise.imp_of_mem (fun {r r'} hr hr' differ a ha b hb same => ?_)
          (distinct.filter _)
        obtain ⟨coverA, inA, usedR⟩ := cover r hr a ha
        obtain ⟨-, inB, usedR'⟩ := cover r' hr' b hb
        have once := Nat.le_of_eq (coverA.primary c (pivot?_mem pivot))
        exact differ (eq_of_uses_le_one once inA (same.mem_iff.2 inB) usedR usedR')

/-! ## Covers as sets of numbers -/

/-- The numbers of the choices along a branch. -/
def numbers (branch : List (Choice κ × κ)) : Finset Nat := (branch.map (·.1.number)).toFinset

/-- The choices whose numbers are in a set. -/
def chosen (p : Problem κ) (T : Finset Nat) : List (Choice κ) := p.choices.filter (·.number ∈ T)

omit [DecidableEq κ] in
theorem mem_chosen : r ∈ p.chosen T ↔ r ∈ p.choices ∧ r.number ∈ T := by
  rw [chosen, List.mem_filter, decide_eq_true_eq]

omit [DecidableEq κ] in
/-- Different choices of a problem are those with their numbers. -/
theorem perm_chosen (different : (p.choices.map Choice.number).Nodup)
    (distinct : rows.Nodup) (available : ∀ r ∈ rows, r ∈ p.choices) :
    rows.Perm (p.chosen (rows.map Choice.number).toFinset) := by
  have nodup : (p.chosen (rows.map Choice.number).toFinset).Nodup := different.of_map.filter _
  refine (List.perm_ext_iff_of_nodup distinct nodup).2 fun r => ?_
  rw [mem_chosen, List.mem_toFinset, List.mem_map]
  constructor
  · exact fun hr => ⟨available r hr, r, hr, rfl⟩
  · rintro ⟨hr, r', hr', same⟩
    exact List.inj_on_of_nodup_map different (available r' hr') hr same ▸ hr'

/-- The choices along a branch are those with the branch's numbers. -/
theorem perm_chosen_numbers (different : (p.choices.map Choice.number).Nodup)
    (mem : branch ∈ p.branches s) :
    (branch.map Prod.fst).Perm (p.chosen (numbers branch)) := by
  have cover := isCover_of_mem_branches mem
  have perm := perm_chosen different cover.distinct cover.available
  rwa [List.map_map] at perm

/-- The branches are those of the sets of numbers whose choices are a cover. -/
theorem mem_map_numbers (different : (p.choices.map Choice.number).Nodup) (declares : p.Declares) :
    T ∈ (p.branches s).map numbers ↔
      (∀ n ∈ T, n ∈ p.choices.map Choice.number) ∧ p.IsCover (p.chosen T) := by
  rw [List.mem_map]
  constructor
  · rintro ⟨branch, mem, rfl⟩
    have cover := isCover_of_mem_branches mem
    refine ⟨fun n hn => ?_, cover.perm (perm_chosen_numbers different mem)⟩
    obtain ⟨b, hb, rfl⟩ := List.mem_map.1 (List.mem_toFinset.1 hn)
    exact List.mem_map_of_mem (of_mem_branches mem b hb).1
  · rintro ⟨known, cover⟩
    obtain ⟨branch, mem, same⟩ := exists_branch (s := s) declares cover
    refine ⟨branch, mem, Finset.ext fun n => ?_⟩
    have numbers_eq : n ∈ numbers branch ↔ n ∈ (branch.map Prod.fst).map Choice.number := by
      rw [numbers, List.mem_toFinset, List.map_map]
      rfl
    rw [numbers_eq, (same.map Choice.number).mem_iff, List.mem_map]
    constructor
    · rintro ⟨r, hr, rfl⟩
      exact (mem_chosen.1 hr).2
    · intro hn
      obtain ⟨r, hr, rfl⟩ := List.mem_map.1 (known n hn)
      exact ⟨r, mem_chosen.2 ⟨hr, hn⟩, rfl⟩

/-- No set of numbers is found twice. -/
theorem nodup_map_numbers (different : (p.choices.map Choice.number).Nodup) :
    ((p.branches s).map numbers).Nodup := by
  rw [List.Nodup, List.pairwise_map]
  refine (pairwise_branches different.of_map).imp_of_mem fun {a b} ha hb differ same => ?_
  have permB := perm_chosen_numbers different hb
  rw [← same] at permB
  exact differ ((perm_chosen_numbers different ha).trans permB.symm)

/-- As many branches end at a cover whatever columns are branched on. -/
theorem length_branches_eq (different : (p.choices.map Choice.number).Nodup) (declares : p.Declares)
    (s s' : Selector) : (p.branches s).length = (p.branches s').length := by
  have same : ((p.branches s).map numbers).Perm ((p.branches s').map numbers) :=
    (List.perm_ext_iff_of_nodup (nodup_map_numbers different) (nodup_map_numbers different)).2
      fun T => (mem_map_numbers different declares).trans (mem_map_numbers different declares).symm
  have length := same.length_eq
  rwa [List.length_map, List.length_map] at length

/-! ## Covers of what is left -/

/-- A set of choices, given by their numbers, solves what is left of a problem when some columns are
covered. -/
structure Solves (p : Problem κ) (covered : List κ) (T : Finset Nat) : Prop where
  /-- The numbers are those of choices. -/
  known : ∀ n ∈ T, n ∈ p.choices.map Choice.number
  /-- None of the choices uses a covered column, -/
  avoids : ∀ r ∈ p.chosen T, ∀ c ∈ r.columns, c ∉ covered
  /-- each of them uses a primary column, -/
  useful : ∀ r ∈ p.chosen T, ∃ c ∈ p.primary, c ∈ r.columns
  /-- every primary column that is left is used by exactly one of them, -/
  primary : ∀ c ∈ p.primary, c ∉ covered → uses (p.chosen T) c = 1
  /-- and every secondary column that is left by at most one. -/
  secondary : ∀ c ∈ p.secondary, c ∉ covered → uses (p.chosen T) c ≤ 1

/-- Choices that use no covered column are left when columns are covered. -/
theorem chosen_without {covered : List κ} (avoids : ∀ r ∈ p.chosen T, ∀ c ∈ r.columns, c ∉ covered) :
    (p.without covered).chosen T = p.chosen T := by
  rw [chosen, without, List.filter_filter, chosen]
  refine List.filter_congr fun r hr => ?_
  by_cases mem : r.number ∈ T
  · have left : (r.columns.all fun c => decide (c ∉ covered)) = true := by
      simpa using avoids r (mem_chosen.2 ⟨hr, mem⟩)
    rw [left, Bool.and_true]
  · rw [decide_eq_false mem, Bool.false_and]

/-- The branches of what is left are those of the sets that solve it. -/
theorem mem_map_numbers_without (different : (p.choices.map Choice.number).Nodup)
    (declares : p.Declares) {covered : List κ} :
    T ∈ ((p.without covered).branches s).map numbers ↔ p.Solves covered T := by
  have kept : ((p.without covered).choices.map Choice.number).Sublist
      (p.choices.map Choice.number) := List.filter_sublist.map _
  rw [mem_map_numbers (different.sublist kept) (declares.without covered)]
  constructor
  · rintro ⟨known, cover⟩
    have avoids : ∀ r ∈ p.chosen T, ∀ c ∈ r.columns, c ∉ covered := fun r hr => by
      obtain ⟨hr, mem⟩ := mem_chosen.1 hr
      obtain ⟨r', hr', same⟩ := List.mem_map.1 (known _ mem)
      obtain ⟨hr', avoids⟩ := mem_choices_without.1 hr'
      exact List.inj_on_of_nodup_map different hr' hr same ▸ avoids
    rw [chosen_without avoids] at cover
    refine ⟨fun n hn => kept.subset (known n hn), avoids, fun r hr => ?_, fun c hc left => ?_,
      fun c hc left => ?_⟩
    · obtain ⟨c, hc, used⟩ := cover.useful r hr
      exact ⟨c, (mem_primary_without.1 hc).1, used⟩
    · exact cover.primary c (mem_primary_without.2 ⟨hc, left⟩)
    · exact cover.secondary c (mem_secondary_without.2 ⟨hc, left⟩)
  · intro solves
    have left : ∀ r ∈ p.chosen T, r ∈ (p.without covered).choices := fun r hr =>
      mem_choices_without.2 ⟨(mem_chosen.1 hr).1, solves.avoids r hr⟩
    refine ⟨fun n hn => ?_, ?_⟩
    · obtain ⟨r, hr, rfl⟩ := List.mem_map.1 (solves.known n hn)
      exact List.mem_map_of_mem (left r (mem_chosen.2 ⟨hr, hn⟩))
    · rw [chosen_without solves.avoids]
      refine ⟨different.of_map.filter _, left, fun r hr => ?_, fun c hc => ?_, fun c hc => ?_⟩
      · obtain ⟨c, hc, used⟩ := solves.useful r hr
        exact ⟨c, mem_primary_without.2 ⟨hc, solves.avoids r hr c used⟩, used⟩
      · obtain ⟨hc, left⟩ := mem_primary_without.1 hc
        exact solves.primary c hc left
      · obtain ⟨hc, left⟩ := mem_secondary_without.1 hc
        exact solves.secondary c hc left

end DancingLinks.Problem
