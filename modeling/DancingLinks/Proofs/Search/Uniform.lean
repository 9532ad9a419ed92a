import DancingLinks.Proofs.Search.Encoded

/-!
# Searches with different options

A puzzle is searched in a `Uniform` way when its options change little about what is found: a limit
cuts it off, and a selector changes the order at most. Then a limit takes the first of the solutions
that are found without one (`Uniform.limited`), and the questions for a solution and for exactly one,
which are answered by searches with limits of their own, agree with a search for all of them
(`Uniform.answers`).

A matrix is searched so (`Matrix.Stands.uniform`), and so is a puzzle in its text form, as long as all
covers can be decoded, or none of them can (`uniform_solveEncoded`, `NamesCovers.uniform`).
-/

namespace DancingLinks

open DancingLinks.Matrix (Built ofConstraintLines)

variable {α : Type} {solve : Options → Except Fault (List α)} {o o' : Options} {xs : List α}
  {fault : Fault}

/-- Nobody listens unless asked to. -/
theorem Options.Patient.of_selector (s : Selector) : Patient { selector := s } := nofun

/-- What a search finds depends little on its options. -/
structure Uniform (solve : Options → Except Fault (List α)) : Prop where
  /-- A limit cuts off what is found without one. -/
  cut : ∀ o : Options, o.Patient → solve o = (solve { selector := o.selector }).map o.cut
  /-- There are as many solutions for one selector as for the other. -/
  length : ∀ {s : Selector} {xs : List α}, solve { selector := s } = .ok xs → ∀ s',
    ∃ ys, solve { selector := s' } = .ok ys ∧ ys.length = xs.length

/-- A search that always fails in the same way. -/
theorem uniform_of_error (fails : ∀ o, solve o = .error fault) : Uniform solve where
  cut := fun o _ => by rw [fails, fails]; rfl
  length := fun {s xs} solved => by rw [fails] at solved; cases solved

namespace Uniform

/-- Without a limit only the selector matters. -/
theorem solve_eq (uniform : Uniform solve) (patient : o.Patient) (unlimited : o.limit = none) :
    solve o = solve { selector := o.selector } := by
  rw [uniform.cut o patient]
  cases solve { selector := o.selector } with
  | error fault => rfl
  | ok xs => exact congrArg Except.ok (Options.cut_of_unlimited unlimited)

/-- A limit takes the first of the solutions that are found without one, and nothing else fails. -/
theorem limited (uniform : Uniform solve) (patient : o.Patient) (limit : Limit) :
    solve { o with limit := some limit }
      = (solve { o with limit := none }).map (List.take limit.count) := by
  have all : solve { o with limit := none } = solve { selector := o.selector } :=
    uniform.solve_eq (o := { o with limit := none }) patient rfl
  rw [uniform.cut { o with limit := some limit } patient, all]
  rfl

/-- A question is answered by a search for some of the solutions. -/
theorem exists_withLimit (uniform : Uniform solve) (patient : o.Patient) (unlimited : o.limit = none)
    (solved : solve o = .ok xs) (limit : Limit) :
    ∃ ys, solve (.withLimit limit) = .ok ys ∧ ys.length = min limit.count xs.length := by
  rw [uniform.solve_eq patient unlimited] at solved
  obtain ⟨ys, others, length⟩ := uniform.length solved .smaller
  refine ⟨ys.take limit.count, ?_, by rw [List.length_take, length]⟩
  have cut := uniform.cut (.withLimit limit) nofun
  rw [show (Options.withLimit limit).selector = .smaller from rfl, others] at cut
  exact cut

/-- Whether there is a solution is told by a search for all of them. -/
theorem hasSolutions_eq (uniform : Uniform solve) (patient : o.Patient) (unlimited : o.limit = none)
    (solved : solve o = .ok xs) : hasSolutions solve = .ok (!xs.isEmpty) := by
  obtain ⟨ys, found, length⟩ := uniform.exists_withLimit patient unlimited solved .one
  rw [hasSolutions, found]
  cases xs with
  | nil => rw [List.length_eq_zero_iff.1 length]; rfl
  | cons x xs =>
    have one : ys.length = 1 := by
      rw [length, List.length_cons]
      exact Nat.min_eq_left (Nat.le_add_left 1 _)
    obtain ⟨y, rfl⟩ := List.length_eq_one_iff.1 one
    rfl

/-- Whether there is exactly one solution is told by a search for all of them. -/
theorem hasUniqueSolution_eq (uniform : Uniform solve) (patient : o.Patient)
    (unlimited : o.limit = none) (solved : solve o = .ok xs) :
    hasUniqueSolution solve = .ok (xs.length == 1) := by
  obtain ⟨ys, found, length⟩ := uniform.exists_withLimit patient unlimited solved .two
  have one : ys.length = 1 ↔ xs.length = 1 := by
    have two : Limit.two.count = 2 := rfl
    omega
  rw [hasUniqueSolution, found]
  refine congrArg Except.ok ?_
  rw [Bool.eq_iff_iff, beq_iff_eq, beq_iff_eq]
  exact one

/-- When one search for all solutions succeeds then all of them do, and they agree with the answers to
the questions. -/
theorem answers (uniform : Uniform solve) (patient : o.Patient) (unlimited : o.limit = none)
    (solved : solve o = .ok xs) (patient' : o'.Patient) (unlimited' : o'.limit = none) :
    ∃ ys, solve o' = .ok ys ∧ hasSolutions solve = .ok (!ys.isEmpty) ∧
      hasUniqueSolution solve = .ok (ys.length == 1) := by
  rw [uniform.solve_eq patient unlimited] at solved
  obtain ⟨ys, others, -⟩ := uniform.length solved o'.selector
  rw [← uniform.solve_eq patient' unlimited'] at others
  exact ⟨ys, others, uniform.hasSolutions_eq patient' unlimited' others,
    uniform.hasUniqueSolution_eq patient' unlimited' others⟩

end Uniform

/-! ## Searching a matrix -/

namespace Matrix

variable {m : Matrix} {p : Problem Nat} {covered : List Nat}

/-- What is left of a problem has as many solutions for one selector as for the other. -/
theorem Stands.length_solutions (stands : m.Stands p covered) (s s' : Selector) :
    (Stands.solutions p covered s).length = (Stands.solutions p covered s').length := by
  have different : ((p.without covered).choices.map Choice.number).Nodup :=
    stands.different.sublist (List.filter_sublist.map _)
  rw [Stands.solutions, Stands.solutions, List.length_map, List.length_map]
  exact Problem.length_branches_eq different (stands.declares.without covered) s s'

theorem Stands.uniform (stands : m.Stands p covered) : Uniform fun o => (m.solve o).result := by
  have plain : ∀ s : Selector, (m.solve { selector := s }).result
      = .ok (Stands.solutions p covered s) := fun s =>
    (stands.solve (.of_selector s)).1
  refine ⟨fun o patient => ?_, fun {s xs} solved s' => ?_⟩
  · rw [(stands.solve patient).1, plain]
    rfl
  · cases (plain s).symm.trans solved
    exact ⟨_, plain s', stands.length_solutions s' s⟩

end Matrix

/-! ## Searching lines -/

variable {lines : List String} {m : Matrix} {q : Problem String}
  {decode : List String → Except Fault α}

/-- What is found is decoded, one cover after the other. -/
theorem solutions_solveEncoded (made : ofConstraintLines lines = .ok m) (built : Built m q)
    (patient : o.Patient) : (solveEncoded lines decode o).map Report.solutions
      = (o.cut (q.branchNames o.selector)).mapM decode := by
  obtain ⟨messages, solved⟩ := solveLines_eq made built patient
  simp only [solveEncoded, solved, bind, Except.bind]
  cases (o.cut (q.branchNames o.selector)).mapM decode with
  | error fault => rfl
  | ok solutions => rfl

/-- The names of covers can all be decoded, or none of them can. -/
def Problem.Decided (q : Problem String) (decode : List String → Except Fault α) : Prop :=
  (∀ rows, q.IsCover rows → ∃ a, decode (rows.map Choice.name) = .ok a) ∨
    ∀ rows, q.IsCover rows → ∃ fault, decode (rows.map Choice.name) = .error fault

/-- The names along a branch are those of a cover. -/
theorem Problem.exists_cover_of_mem {names : List String} {s : Selector}
    (mem : names ∈ q.branchNames s) : ∃ rows, q.IsCover rows ∧ rows.map Choice.name = names := by
  obtain ⟨branch, hb, rfl⟩ := List.mem_map.1 mem
  exact ⟨_, isCover_of_mem_branches hb, rfl⟩

/-- There are as many branches for one selector as for the other. -/
theorem Matrix.Built.length_branchNames (built : Built m q) (s s' : Selector) :
    (q.branchNames s).length = (q.branchNames s').length := by
  rw [Problem.branchNames, Problem.branchNames, List.length_map, List.length_map]
  exact Problem.length_branches_eq built.different built.declares s s'

/-- When all texts are decoded, those before the limit are. -/
theorem exists_mapM_cut {xs : List (List String)} (all : ∀ x ∈ xs, ∃ a, decode x = .ok a) :
    ∃ ys : List α, ys.length = xs.length ∧ ∀ o : Options, (o.cut xs).mapM decode = .ok (o.cut ys) := by
  obtain ⟨ys, decoded, length, front⟩ := exists_mapM_take all
  refine ⟨ys, length, fun o => ?_⟩
  unfold Options.cut
  cases o.limit with
  | none => exact decoded
  | some limit => exact front limit.count

/-- A first text that is not decoded comes before any limit. -/
theorem mapM_cut_error {x : List String} {xs : List (List String)} (fails : decode x = .error fault)
    (o : Options) : (o.cut (x :: xs)).mapM decode = .error fault := by
  have failed : ∀ ys, (x :: ys).mapM decode = .error fault := fun ys => by
    rw [List.mapM_cons, fails]
    rfl
  unfold Options.cut
  cases o.limit with
  | none => exact failed xs
  | some limit =>
    obtain ⟨_ | k, positive⟩ := limit
    · cases positive
    · exact failed (xs.take k)

/-- Either what is found is decoded for every selector and limit, or it is for none. -/
theorem Problem.Decided.mapM_cut (decided : q.Decided decode) (built : Built m q) :
    (∀ s, ∃ ys : List α, ys.length = (q.branchNames s).length ∧
      ∀ o : Options, (o.cut (q.branchNames s)).mapM decode = .ok (o.cut ys)) ∨
    ∀ s, ∃ fault, ∀ o : Options, (o.cut (q.branchNames s)).mapM decode = .error fault := by
  rcases decided with all | none
  · refine .inl fun s => exists_mapM_cut fun names mem => ?_
    obtain ⟨rows, cover, rfl⟩ := exists_cover_of_mem mem
    exact all rows cover
  · by_cases any : ∃ s, q.branchNames s = []
    · obtain ⟨s, empty⟩ := any
      refine .inl fun s' => ?_
      have empty' : q.branchNames s' = [] := by
        rw [← List.length_eq_zero_iff, built.length_branchNames s' s, empty, List.length_nil]
      rw [empty']
      refine ⟨[], rfl, fun o => ?_⟩
      rw [Options.cut_nil, Options.cut_nil]
      rfl
    · refine .inr fun s => ?_
      obtain ⟨names, others, first⟩ := List.exists_cons_of_ne_nil fun empty => any ⟨s, empty⟩
      obtain ⟨rows, cover, rfl⟩ := exists_cover_of_mem (first ▸ List.mem_cons_self)
      obtain ⟨fault, fails⟩ := none rows cover
      exact ⟨fault, fun o => by rw [first]; exact mapM_cut_error fails o⟩

/-- A search of lines is uniform when all covers can be decoded, or none. -/
theorem uniform_solveEncoded
    (decided : ∀ m, ofConstraintLines lines = .ok m → ∃ q, Built m q ∧ q.Decided decode) :
    Uniform fun o => (solveEncoded lines decode o).map Report.solutions := by
  cases made : ofConstraintLines lines with
  | error fault =>
    have fails : ∀ o, (solveEncoded lines decode o).map Report.solutions = .error fault := fun o => by
      simp only [solveEncoded, solveLines, made, bind, Except.bind]
      rfl
    exact uniform_of_error fails
  | ok m =>
    obtain ⟨q, built, decided⟩ := decided m made
    have found : ∀ o : Options, o.Patient → (solveEncoded lines decode o).map Report.solutions
        = (o.cut (q.branchNames o.selector)).mapM decode := fun o patient =>
      solutions_solveEncoded made built patient
    have plain : ∀ s : Selector, (solveEncoded lines decode { selector := s }).map Report.solutions
        = (Options.cut { selector := s } (q.branchNames s)).mapM decode := fun s =>
      found { selector := s } (.of_selector s)
    rcases decided.mapM_cut built with all | none
    · refine ⟨fun o patient => ?_, fun {s xs} solved s' => ?_⟩
      · obtain ⟨ys, -, decoded⟩ := all o.selector
        rw [found o patient, plain, decoded, decoded]
        rfl
      · obtain ⟨ys, length, decoded⟩ := all s
        obtain ⟨ys', length', decoded'⟩ := all s'
        have same : xs = ys := Except.ok.inj (solved.symm.trans ((plain s).trans (decoded _)))
        refine ⟨ys', (plain s').trans (decoded' _), ?_⟩
        rw [same, length, length', built.length_branchNames]
    · refine ⟨fun o patient => ?_, fun {s xs} solved s' => ?_⟩
      · obtain ⟨fault, fails⟩ := none o.selector
        rw [found o patient, plain, fails, fails]
        rfl
      · obtain ⟨fault, fails⟩ := none s
        cases solved.symm.trans ((plain s).trans (fails _))

/-! ## Covers that are named after candidates -/

variable {κ : Type} {name : κ → String} {Good : List κ → Prop}

/-- When the lines become a matrix, its covers are named after good selections of candidates. -/
def NamesCovers (lines : List String) (name : κ → String) (Good : List κ → Prop) : Prop :=
  ∀ m, ofConstraintLines lines = .ok m → ∃ q, Built m q ∧
    ∀ rows, q.IsCover rows → ∃ cells, Good cells ∧ rows.map Choice.name = cells.map name

/-- Selections that are good are also good enough. -/
theorem NamesCovers.mono {Good' : List κ → Prop} (named : NamesCovers lines name Good)
    (weaker : ∀ cells, Good cells → Good' cells) : NamesCovers lines name Good' := by
  intro m made
  obtain ⟨q, built, covers⟩ := named m made
  refine ⟨q, built, fun rows cover => ?_⟩
  obtain ⟨cells, good, names⟩ := covers rows cover
  exact ⟨cells, weaker cells good, names⟩

/-- A search of such lines is uniform when all good selections can be decoded, or none. -/
theorem NamesCovers.uniform (named : NamesCovers lines name Good)
    (decided : (∀ cells, Good cells → ∃ a, decode (cells.map name) = .ok a) ∨
      ∀ cells, Good cells → ∃ fault, decode (cells.map name) = .error fault) :
    Uniform fun o => (solveEncoded lines decode o).map Report.solutions := by
  refine uniform_solveEncoded fun m made => ?_
  obtain ⟨q, built, covers⟩ := named m made
  refine ⟨q, built, decided.imp (fun all rows cover => ?_) fun none rows cover => ?_⟩
  · obtain ⟨cells, good, names⟩ := covers rows cover
    rw [names]
    exact all cells good
  · obtain ⟨cells, good, names⟩ := covers rows cover
    rw [names]
    exact none cells good

end DancingLinks
