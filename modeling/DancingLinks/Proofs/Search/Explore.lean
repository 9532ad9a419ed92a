import DancingLinks.Proofs.ExactCover.Branches
import DancingLinks.Search

/-!
# The search without links

`Search.explore` is the search with the problem that is left in place of a matrix: it sends the same
events and records the same solutions, but covers nothing. As long as nobody refuses an event it
finds what lies at the ends of the branches, up to the limit (`explore_finds`).
-/

namespace DancingLinks

/-- The nodes of a row, from the one in column `c` on. -/
def Choice.nodesFrom (r : Choice Nat) (c : Nat) : List Nat := (r.startingAt c).columns.map r.node

/-- The solution at the end of a branch. -/
def Solution.ofBranch (branch : List (Choice Nat × Nat)) : Solution :=
  ⟨branch.map fun b => b.1.nodesFrom b.2⟩

/-! ## Options -/

namespace Options

variable {α : Type} {o : Options} {xs ys : List α}

/-- No listener refuses an event. -/
def Patient (o : Options) : Prop :=
  ∀ listener ∈ o.listener, ∀ number event, listener.accepts number event = true

/-- As many solutions as the limit asks for. -/
def reached (o : Options) (found : Nat) : Bool :=
  match o.limit with
  | some limit => limit.count ≤ found
  | none => false

/-- What is found before the limit is reached. -/
def cut (o : Options) (xs : List α) : List α :=
  match o.limit with
  | some limit => xs.take limit.count
  | none => xs

theorem cut_of_unlimited (unlimited : o.limit = none) : o.cut xs = xs := by
  rw [cut, unlimited]

theorem cut_nil (o : Options) : o.cut ([] : List α) = [] := by
  unfold cut
  cases o.limit with
  | none => rfl
  | some limit => exact List.take_nil

/-- Before the limit is reached nothing is cut off. -/
theorem cut_eq_self (open_ : o.reached (o.cut xs).length = false) :
    o.cut xs = xs := by
  unfold reached cut at *
  cases limit : o.limit with
  | none => rfl
  | some limit =>
    simp only [limit, decide_eq_false_iff_not, List.length_take] at open_ ⊢
    exact List.take_of_length_le (by omega)

/-- A search that did not start at the limit keeps all that was found before. -/
theorem cut_of_not_reached (open_ : o.reached xs.length = false) :
    o.cut xs = xs := by
  refine cut_eq_self ?_
  unfold reached cut at *
  cases limit : o.limit with
  | none => rfl
  | some limit =>
    simp only [limit, decide_eq_false_iff_not, List.length_take] at open_ ⊢
    omega

/-- When the limit is reached all the rest is cut off. -/
theorem cut_append_of_reached (full : o.reached (o.cut xs).length = true) :
    o.cut (xs ++ ys) = o.cut xs := by
  unfold reached cut at *
  cases limit : o.limit with
  | none => simp [limit] at full
  | some limit =>
    simp only [limit, decide_eq_true_eq, List.length_take] at full ⊢
    exact List.take_append_of_le_length (by omega)

end Options

namespace Search

/-! ## Exploring a problem -/

/-- Tries some rows until the limit is reached. The answer is whether a solution was found, here or
earlier. -/
def exploreRows (o : Options) (attempt : Choice Nat → Search Bool) (foundBefore : Bool) :
    List (Choice Nat) → Search Bool
  | [] => pure foundBefore
  | r :: rows => do
    if ← attempt r then
      if ← limitReached o then pure true
      else exploreRows o attempt true rows
    else exploreRows o attempt foundBefore rows

/-- A level of the search for the covers of a problem, at the end of a branch. -/
def explore (o : Options) : (room : Nat) → Problem Nat → List (Choice Nat × Nat) → Search Bool
  | 0, _, _ => fail .tooDeep
  | room + 1, p, branch => do
    let depth := branch.length
    send o (.searching depth)
    match p.pivot? o.selector with
    | none => do
      send o (.found depth (branch.map fun b => b.1.node b.2))
      record (.ofBranch branch)
      return true
    | some c => do
      send o (.available depth p.primary p.secondary)
      send o (.chose depth c)
      ensuring
        (exploreRows o
          (fun r => do
            send o (.adding depth (r.node c))
            ensuring (explore o room (p.without r.columns) (branch ++ [(r, c)]))
              (send o (.removing depth (r.node c))))
          false (p.choices.filter (c ∈ ·.columns)))
        (send o (.uncovering depth c))

/-! ## What is found -/

variable {o : Options} {step : Search Bool} {solutions : List Solution} {event : Event}

/-- A step that starts before the limit is reached finds some solutions, up to the limit. The answer
is whether there are any. -/
def Finds (o : Options) (step : Search Bool) (solutions : List Solution) : Prop :=
  ∀ run, o.reached run.found.size = false → ∃ run', step run = (.ok !solutions.isEmpty, run') ∧
    run'.found.toList = o.cut (run.found.toList ++ solutions)

/-- An event that is accepted leaves what was found. -/
theorem send_ok (patient : o.Patient) (event : Event) (run : Run) :
    ∃ run', send o event run = (.ok (), run') ∧ run'.found = run.found := by
  unfold send
  cases heard : o.listener with
  | none => exact ⟨run, rfl, rfl⟩
  | some listener =>
    simp only [patient listener heard, if_true]
    exact ⟨_, rfl, rfl⟩

theorem Finds.send (finds : Finds o step solutions) (patient : o.Patient) (event : Event) :
    Finds o (send o event >>= fun _ => step) solutions := by
  intro run open_
  obtain ⟨run₁, sent, same⟩ := send_ok patient event run
  rw [bind_apply, sent, ← same]
  exact finds run₁ (same ▸ open_)

theorem Finds.ensuring (finds : Finds o step solutions) (patient : o.Patient) (event : Event) :
    Finds o (ensuring step (Search.send o event)) solutions := by
  intro run open_
  obtain ⟨run₁, done, found⟩ := finds run open_
  obtain ⟨run₂, sent, same⟩ := send_ok patient event run₁
  refine ⟨run₂, ?_, same ▸ found⟩
  simp only [Search.ensuring, done, sent]

/-- At the end of a branch its solution is recorded. -/
theorem finds_record (solution : Solution) :
    Finds o (do record solution; return true) [solution] := by
  intro run open_
  refine ⟨_, rfl, ?_⟩
  have size : run.found.size = run.found.toList.length := rfl
  rw [size] at open_
  show (run.found.push solution).toList = _
  rw [Array.toList_push]
  unfold Options.reached at open_
  unfold Options.cut
  cases limit : o.limit with
  | none => rfl
  | some limit =>
    simp only [limit, decide_eq_false_iff_not] at open_
    refine (List.take_of_length_le ?_).symm
    rw [List.length_append, List.length_singleton]
    omega

/-- Rows that are tried in order find what each of them finds, in order. -/
theorem exploreRows_finds {attempt : Choice Nat → Search Bool}
    {found : Choice Nat → List Solution} {rows : List (Choice Nat)}
    (finds : ∀ r ∈ rows, Finds o (attempt r) (found r)) (before : Bool) (run : Run)
    (open_ : o.reached run.found.size = false) :
    ∃ run', exploreRows o attempt before rows run
        = (.ok (before || !(rows.flatMap found).isEmpty), run') ∧
      run'.found.toList = o.cut (run.found.toList ++ rows.flatMap found) := by
  induction rows generalizing before run with
  | nil =>
    refine ⟨run, by simp [exploreRows, pure_apply], ?_⟩
    rw [List.flatMap_nil, List.append_nil]
    exact (Options.cut_of_not_reached open_).symm
  | cons r rows ih =>
    have rest := fun before => ih (fun r' hr' => finds r' (List.mem_cons_of_mem _ hr')) before
    obtain ⟨run₁, tried, found₁⟩ := finds r List.mem_cons_self run open_
    have limited : limitReached o run₁ = (.ok (o.reached run₁.found.size), run₁) := rfl
    simp only [exploreRows, bind_apply, tried, List.flatMap_cons]
    cases any : found r with
    | nil =>
      -- Nothing was found, so the limit is as far away as before.
      rw [any, List.append_nil, Options.cut_of_not_reached open_] at found₁
      have same : run₁.found = run.found := Array.toList_inj.1 found₁
      obtain ⟨run₂, done, found₂⟩ := rest before run₁ (same ▸ open_)
      exact ⟨run₂, by simpa using done, by simpa [same] using found₂⟩
    | cons solution solutions =>
      rw [any] at found₁
      have size : run₁.found.size = (o.cut (run.found.toList ++ solution :: solutions)).length := by
        rw [← found₁]
        rfl
      cases full : o.reached run₁.found.size with
      | true =>
        refine ⟨run₁, by simp [limited, full, bind_apply, pure_apply], ?_⟩
        rw [← List.append_assoc, Options.cut_append_of_reached (size ▸ full)]
        exact found₁
      | false =>
        obtain ⟨run₂, done, found₂⟩ := rest true run₁ full
        refine ⟨run₂, by simpa [limited, full, bind_apply] using done, ?_⟩
        have whole : o.cut (run.found.toList ++ solution :: solutions)
            = run.found.toList ++ solution :: solutions := Options.cut_eq_self (size ▸ full)
        rw [found₂, found₁, whole, List.append_assoc]

/-- A search with room enough finds the solutions at the ends of the branches. -/
theorem explore_finds (patient : o.Patient) {room : Nat} {p : Problem Nat}
    (enough : p.primary.length < room) (branch : List (Choice Nat × Nat)) :
    Finds o (explore o room p branch)
      ((p.branches o.selector).map fun rest => .ofBranch (branch ++ rest)) := by
  induction room generalizing p branch with
  | zero => cases enough
  | succ room ih =>
    refine Finds.send ?_ patient _
    cases pivot : p.pivot? o.selector with
    | none =>
      rw [Problem.branches_of_none pivot, List.map_singleton, List.append_nil]
      exact (finds_record _).send patient _
    | some c =>
      refine Finds.send (Finds.send (Finds.ensuring ?_ patient _) patient _) patient _
      rw [Problem.branches_eq pivot, List.map_flatMap]
      refine exploreRows_finds (fun r hr => ?_) false
      rw [List.map_map]
      refine Finds.send (Finds.ensuring ?_ patient _) patient _
      have used : c ∈ r.columns := by simpa using (List.mem_filter.1 hr).2
      have fewer := Problem.primary_without_lt (Problem.pivot?_mem pivot) used
      have below := ih (p := p.without r.columns) (by omega) (branch ++ [(r, c)])
      simp only [List.append_assoc, List.singleton_append] at below
      exact below

end Search

end DancingLinks
