import DancingLinks.Proofs.ExactCover.Nodes

/-!
# The branches of Algorithm X

A cover is found along a branch: the choices that were made, each with the column that was branched
on. `Problem.branches` lists the branches in the order in which they are taken, and
`covers_eq_branches` reads the covers off them.

Every level covers the column it branches on, so there are fewer primary columns below it. Hence the
bound on the number of levels does not matter (`branches_eq`), and what holds of a problem when it
holds of what is left after any choice holds of every problem (`Problem.descend`).
-/

namespace DancingLinks

/-! ## Selectors -/

namespace Selector

variable {α β : Type} {key key' : α → Int} {s : Selector} {x best : α} {xs : List α}

theorem choose?_mem (picked : s.choose? key xs = some x) : x ∈ xs := by
  cases xs with
  | nil => cases s <;> cases picked
  | cons y ys =>
    cases s with
    | first => exact List.mem_cons.2 (.inl (Option.some.inj picked).symm)
    | smaller => exact Option.some.inj picked ▸ least_mem key y ys

@[simp] theorem choose?_eq_none : s.choose? key xs = none ↔ xs = [] := by
  cases xs <;> cases s <;> simp [choose?]

/-- The least element depends only on the keys of the elements compared. -/
theorem least_congr (same : ∀ x ∈ best :: xs, key x = key' x) :
    least key best xs = least key' best xs := by
  induction xs generalizing best with
  | nil => rfl
  | cons y ys ih =>
    have best' : key best = key' best := same best List.mem_cons_self
    have y' : key y = key' y := same y (List.mem_cons_of_mem _ List.mem_cons_self)
    rw [least, least, best', y']
    refine ih fun z mem => same z ?_
    rcases List.mem_cons.1 mem with rfl | mem
    · split
      · exact List.mem_cons_of_mem _ List.mem_cons_self
      · exact List.mem_cons_self
    · exact List.mem_cons_of_mem _ (List.mem_cons_of_mem _ mem)

/-- A selector looks only at the keys of the elements it picks from. -/
theorem choose?_congr (same : ∀ x ∈ xs, key x = key' x) : s.choose? key xs = s.choose? key' xs := by
  cases xs with
  | nil => rfl
  | cons y ys =>
    cases s with
    | first => rfl
    | smaller => exact congrArg some (least_congr same)

/-- The least element is the leftmost of those with the least key. -/
theorem find?_least (key : α → Int) (best : α) (xs : List α) :
    (best :: xs).find? (fun x => ∀ y ∈ best :: xs, key x ≤ key y) = some (least key best xs) := by
  induction xs generalizing best with
  | nil => simp [least]
  | cons y ys ih =>
    rw [least]
    split
    · next less =>
      have notBest : ¬∀ z ∈ best :: y :: ys, key best ≤ key z := fun all => by
        have := all y (by simp)
        omega
      have same : ∀ x, (∀ z ∈ best :: y :: ys, key x ≤ key z) ↔ ∀ z ∈ y :: ys, key x ≤ key z := by
        intro x
        rw [List.forall_mem_cons, and_iff_right_iff_imp]
        exact fun all => Int.le_of_lt (Int.lt_of_le_of_lt (all y List.mem_cons_self) less)
      rw [List.find?_cons_of_neg (by simpa using notBest), ← ih y]
      exact congrArg (List.find? · _) (funext fun x => decide_eq_decide.2 (same x))
    · next notLess =>
      have same : ∀ x, (∀ z ∈ best :: y :: ys, key x ≤ key z) ↔ ∀ z ∈ best :: ys, key x ≤ key z := by
        intro x
        simp only [List.forall_mem_cons]
        constructor
        · rintro ⟨first, _, others⟩
          exact ⟨first, others⟩
        · rintro ⟨first, others⟩
          exact ⟨first, by omega, others⟩
      have notSecond : (∃ z ∈ best :: ys, key z < key best) →
          ¬∀ z ∈ best :: ys, key y ≤ key z := by
        rintro ⟨z, hz, less⟩ all
        have := all z hz
        omega
      rw [← ih best]
      simp only [same]
      by_cases least : ∀ z ∈ best :: ys, key best ≤ key z
      · rw [List.find?_cons_of_pos (by simpa using least),
          List.find?_cons_of_pos (by simpa using least)]
      · have more : ∃ z ∈ best :: ys, key z < key best := by
          simpa only [not_forall, Int.not_le, exists_prop] using least
        rw [List.find?_cons_of_neg (by simpa using least),
          List.find?_cons_of_neg (by simpa using notSecond more),
          List.find?_cons_of_neg (by simpa using least)]

theorem least_map (f : β → α) (best : β) (xs : List β) :
    least key (f best) (xs.map f) = f (least (key ∘ f) best xs) := by
  induction xs generalizing best with
  | nil => rfl
  | cons y ys ih =>
    have next := ih (if key (f y) < key (f best) then y else best)
    rw [apply_ite f] at next
    exact next

/-- A selector picks by position and keys, whatever the elements are called. -/
theorem choose?_map (f : β → α) (xs : List β) :
    s.choose? key (xs.map f) = (s.choose? (key ∘ f) xs).map f := by
  cases xs with
  | nil => rfl
  | cons y ys =>
    cases s with
    | first => rfl
    | smaller => exact congrArg some (least_map f y ys)

end Selector

/-! ## Branches -/

namespace Problem

variable {κ : Type} [DecidableEq κ] {p : Problem κ} {s : Selector} {r : Choice κ} {c : κ}
  {room : Nat}

theorem pivot?_mem (pivot : p.pivot? s = some c) : c ∈ p.primary := Selector.choose?_mem pivot

/-- The first selector branches on the leftmost primary column. -/
theorem pivot?_first : p.pivot? .first = p.primary.head? := by
  rw [pivot?]
  cases p.primary <;> rfl

/-- The other one branches on the leftmost of the primary columns that the fewest choices use. -/
theorem pivot?_smaller : p.pivot? .smaller
    = p.primary.find? fun c => ∀ d ∈ p.primary, uses p.choices c ≤ uses p.choices d := by
  rw [pivot?]
  cases p.primary with
  | nil => rfl
  | cons c cs =>
    have least := Selector.find?_least (fun c => (uses p.choices c : Int)) c cs
    simp only [Int.ofNat_le] at least
    exact least.symm

/-- There is a column to branch on as long as a primary column is left. -/
theorem pivot?_eq_none : p.pivot? s = none ↔ p.primary = [] := Selector.choose?_eq_none

/-- A choice that uses a primary column leaves fewer of them. -/
theorem primary_without_lt (mem : c ∈ p.primary) (used : c ∈ r.columns) :
    (p.without r.columns).primary.length < p.primary.length := by
  rw [without, List.length_filter_lt_length_iff_exists]
  exact ⟨c, mem, by simpa using used⟩

/-- What holds of a problem when it holds of all that is left after a choice holds of every problem.
-/
theorem descend {motive : Problem κ → Prop} (s : Selector)
    (step : ∀ p : Problem κ, (∀ c r, p.pivot? s = some c → r ∈ p.choices → c ∈ r.columns →
      motive (p.without r.columns)) → motive p) (p : Problem κ) : motive p := by
  generalize size : p.primary.length = n
  induction n using Nat.strongRecOn generalizing p with
  | ind n ih =>
    refine step p fun c r pivot _ used => ih _ ?_ _ rfl
    exact size ▸ primary_without_lt (pivot?_mem pivot) used

/-- The branches that end at a cover, in at most `room` levels. -/
def branchesWithin (s : Selector) : (room : Nat) → Problem κ → List (List (Choice κ × κ))
  | 0, _ => []
  | room + 1, p =>
    match p.pivot? s with
    | none => [[]]
    | some c =>
      (p.choices.filter (c ∈ ·.columns)).flatMap fun r =>
        (branchesWithin s room (p.without r.columns)).map ((r, c) :: ·)

/-- The branches that end at a cover. -/
def branches (p : Problem κ) (s : Selector) : List (List (Choice κ × κ)) :=
  p.branchesWithin s (p.primary.length + 1)

/-- More room than there are primary columns makes no difference. -/
theorem branchesWithin_eq (enough : p.primary.length < room) :
    p.branchesWithin s room = p.branches s := by
  suffices same : ∀ room', p.primary.length < room' →
      p.branchesWithin s room = p.branchesWithin s room' from same _ (Nat.lt_succ_self _)
  induction room generalizing p with
  | zero => cases enough
  | succ room ih =>
    rintro (_ | room') enough'
    · cases enough'
    rw [branchesWithin, branchesWithin]
    split
    · rfl
    · next c pivot =>
      refine List.flatMap_congr fun r hr => congrArg _ ?_
      have used : c ∈ r.columns := by simpa using (List.mem_filter.1 hr).2
      have fewer := primary_without_lt (pivot?_mem pivot) used
      exact ih (by omega) _ (by omega)

theorem branches_of_none (done : p.pivot? s = none) : p.branches s = [[]] := by
  rw [branches, branchesWithin, done]

/-- The branches of a problem: those that start with any choice that uses the pivot. -/
theorem branches_eq (pivot : p.pivot? s = some c) :
    p.branches s = (p.choices.filter (c ∈ ·.columns)).flatMap fun r =>
      ((p.without r.columns).branches s).map ((r, c) :: ·) := by
  rw [branches, branchesWithin, pivot]
  refine List.flatMap_congr fun r hr => congrArg _ (branchesWithin_eq ?_)
  exact primary_without_lt (pivot?_mem pivot) (by simpa using (List.mem_filter.1 hr).2)

/-- A branch starts with a choice that uses the pivot. -/
theorem cons_mem_branches {b : Choice κ × κ} {branch : List (Choice κ × κ)}
    (pivot : p.pivot? s = some c) : b :: branch ∈ p.branches s ↔
      b.1 ∈ p.choices ∧ c ∈ b.1.columns ∧ b.2 = c ∧ branch ∈ (p.without b.1.columns).branches s := by
  rw [branches_eq pivot]
  simp only [List.mem_flatMap, List.mem_filter, decide_eq_true_eq, List.mem_map, List.cons.injEq]
  constructor
  · rintro ⟨r, ⟨hr, used⟩, rest, mem, rfl, rfl⟩
    exact ⟨hr, used, rfl, mem⟩
  · rintro ⟨hr, used, rfl, mem⟩
    exact ⟨b.1, ⟨hr, used⟩, branch, mem, rfl, rfl⟩

theorem not_nil_mem_branches (pivot : p.pivot? s = some c) : [] ∉ p.branches s := by
  rw [branches_eq pivot]
  simp

/-- The choices along a branch are choices of the problem, and use the column branched on. -/
theorem of_mem_branches {branch : List (Choice κ × κ)} (mem : branch ∈ p.branches s) :
    ∀ b ∈ branch, b.1 ∈ p.choices ∧ b.2 ∈ b.1.columns := by
  induction branch generalizing p with
  | nil => exact fun b hb => nomatch hb
  | cons b branch ih =>
    cases pivot : p.pivot? s with
    | none => simp [branches_of_none pivot] at mem
    | some c =>
      obtain ⟨hr, used, rfl, rest⟩ := (cons_mem_branches pivot).1 mem
      refine List.forall_mem_cons.2 ⟨⟨hr, used⟩, fun b' hb' => ?_⟩
      obtain ⟨hr', used'⟩ := ih rest b' hb'
      exact ⟨(mem_choices_without.1 hr').1, used'⟩

/-- The covers in at most `room` levels are found along the branches. -/
theorem coversWithin_eq (s : Selector) (room : Nat) (p : Problem κ) :
    p.coversWithin s room
      = (p.branchesWithin s room).map (List.map fun b => b.1.startingAt b.2) := by
  induction room generalizing p with
  | zero => rfl
  | succ room ih =>
    cases pivot : p.pivot? s with
    | none =>
      rw [coversWithin, branchesWithin, pivot]
      rfl
    | some c =>
      rw [coversWithin, branchesWithin, pivot, List.map_flatMap]
      refine List.flatMap_congr fun r _ => ?_
      rw [ih, List.map_map, List.map_map]
      rfl

/-- The covers are found along the branches: every choice is turned to the column branched on. -/
theorem covers_eq_branches (p : Problem κ) (s : Selector) :
    p.covers s = (p.branches s).map (List.map fun b => b.1.startingAt b.2) :=
  coversWithin_eq s _ p

theorem covers_of_none (done : p.pivot? s = none) : p.covers s = [[]] := by
  rw [covers_eq_branches, branches_of_none done]
  rfl

/-- The covers of a problem: those that start with any choice that uses the pivot, and go on with a
cover of what it leaves. -/
theorem covers_eq (pivot : p.pivot? s = some c) :
    p.covers s = (p.choices.filter (c ∈ ·.columns)).flatMap fun r =>
      ((p.without r.columns).covers s).map (r.startingAt c :: ·) := by
  rw [covers_eq_branches, branches_eq pivot, List.map_flatMap]
  refine List.flatMap_congr fun r _ => ?_
  rw [covers_eq_branches, List.map_map, List.map_map]
  rfl

end Problem

end DancingLinks
