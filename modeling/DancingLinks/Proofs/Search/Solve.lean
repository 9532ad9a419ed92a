import DancingLinks.Proofs.Matrix.Names
import DancingLinks.Proofs.Search.Simulation
import DancingLinks.Search.Choices

/-!
# What a search finds

A search on a matrix that was built for a problem, and then had columns covered and uncovered in
nested order, ends with the solutions at the ends of the branches, up to the limit, and leaves the
matrix linked as it was (`Stands.solve`). So

* every search, whatever its limit, restores every link and every count (`solve_restores`);
* without a limit it finds the covers of plain Algorithm X, in their order (`solve_eq_covers`);
* and these are the sets of rows that cover what is left exactly, each of them once (`solve_exact`).
-/

namespace DancingLinks

variable {o o' : Options} {m start : Matrix} {p : Problem Nat} {q : Problem String}
  {covered : List Nat}

/-! ## Rows of a solution -/

/-- The headers of the rows of a solution. -/
def Solution.rowHeaders (mesh : Mesh) (s : Solution) : Finset Nat :=
  (s.rows.map fun row => mesh.rowHeader.get (row.headD Matrix.primaryRoot)).toFinset

theorem Solution.rowHeaders_eq (mesh : Mesh) (s : Solution) :
    s.rowHeaders mesh = ((s.choices mesh).map Choice.number).toFinset := by
  rw [rowHeaders, choices, List.map_map]
  rfl

/-! ## Searches from any state -/

/-- A search starts before its limit is reached, since a limit is positive. -/
theorem Options.reached_zero (o : Options) : o.reached 0 = false := by
  unfold reached
  cases o.limit with
  | none => rfl
  | some limit => exact decide_eq_false (Nat.not_le.2 limit.positive)

namespace Matrix

/-- The solutions at the ends of the branches of what is left. -/
def Stands.solutions (p : Problem Nat) (covered : List Nat) (s : Selector) : List Solution :=
  ((p.without covered).branches s).map .ofBranch

/-- A search ends with what was found, unless a fault breaks it off. -/
theorem solve_result (m : Matrix) (o : Options) : (m.solve o).result
    = (Search.level o m.levels [] { matrix := m }).1.map fun _ =>
        (Search.level o m.levels [] { matrix := m }).2.found.toList := by
  unfold Matrix.solve
  split
  · next ended => rw [ended]; rfl
  · next ended => rw [ended]; rfl

theorem solve_matrix (m : Matrix) (o : Options) :
    (m.solve o).matrix = (Search.level o m.levels [] { matrix := m }).2.matrix := by
  unfold Matrix.solve
  split
  · next ended => rw [ended]
  · next ended => rw [ended]

theorem solve_events (m : Matrix) (o : Options) :
    (m.solve o).events = (Search.level o m.levels [] { matrix := m }).2.events.toList := by
  unfold Matrix.solve
  split
  · next ended => rw [ended]
  · next ended => rw [ended]

/-- A search does what one without links does on what is left, as long as nobody refuses to hear
which column was covered. -/
theorem Stands.solve_mirrors (stands : m.Stands p covered) (steady : o.Steady) :
    Search.Agrees m (Search.level o m.levels [] { matrix := m })
      (Search.explore o m.levels (p.without covered) [] { matrix := m }) :=
  Search.level_mirrors steady [] stands nofun { matrix := m } { matrix := m } (.refl m) ⟨rfl, rfl⟩

/-- A search finds the solutions of what is left, up to the limit. -/
theorem Stands.solve (stands : m.Stands p covered) (patient : o.Patient) :
    (m.solve o).result = .ok (o.cut (Stands.solutions p covered o.selector)) ∧
      (m.solve o).matrix.Alike m := by
  obtain ⟨outcome, alike, same⟩ := stands.solve_mirrors patient.steady
  obtain ⟨run', ends, found⟩ := Search.explore_finds patient stands.lt_levels [] { matrix := m }
    o.reached_zero
  rw [solve_result, solve_matrix, outcome, same.found, ends]
  exact ⟨congrArg Except.ok found, alike⟩

/-! ## Restoring the matrix -/

/-- The matrix after some searches. -/
def afterSearches (m : Matrix) (searches : List Options) : Matrix :=
  searches.foldl (fun m o => (m.solve o).matrix) m

/-- Searches leave the matrix linked as it was. -/
theorem Stands.afterSearches (stands : m.Stands p covered) {searches : List Options}
    (patient : ∀ o ∈ searches, o.Patient) : (m.afterSearches searches).Alike m := by
  induction searches generalizing m with
  | nil => exact .refl m
  | cons o searches ih =>
    have first := (stands.solve (patient o List.mem_cons_self)).2
    have rest := ih (stands.congr first.symm) fun o' ho' => patient o' (List.mem_cons_of_mem _ ho')
    exact rest.trans first

/-- What a search finds depends on its selector and its limit alone. -/
theorem Stands.solve_congr (stands : m.Stands p covered) (stands' : start.Stands p covered)
    (patient : o.Patient) (patient' : o'.Patient) (selector : o.selector = o'.selector)
    (limit : o.limit = o'.limit) : (m.solve o).result = (start.solve o').result := by
  rw [(stands.solve patient).1, (stands'.solve patient').1, selector, Options.cut, limit]
  rfl

/-- Solving leaves the matrix as it was: a search ends with solutions, every node is linked and
counts as before, and after any searches a search finds what one with the same selector and limit
would have found before them. -/
theorem solve_restores (built : Built start q) (nested : Nested start covered m)
    (patient : o.Patient) :
    (∃ solutions, (m.solve o).result = .ok solutions) ∧
      (∀ d x, (m.solve o).matrix.mesh.neighbor d x = m.mesh.neighbor d x) ∧
      (∀ x, (m.solve o).matrix.mesh.count x = m.mesh.count x) ∧
      ∀ (searches : List Options) (o' : Options), (∀ other ∈ searches, other.Patient) →
        o'.Patient → o'.selector = o.selector → o'.limit = o.limit →
        ((m.afterSearches searches).solve o').result = (m.solve o).result := by
  obtain ⟨p, stands, -⟩ := built.stands nested
  obtain ⟨result, alike⟩ := stands.solve patient
  refine ⟨⟨_, result⟩, fun d x => ?_, fun x => ?_, fun searches o' others patient' => ?_⟩
  · rw [alike.mesh.neighbor]
  · rw [alike.mesh.count]
  · exact (stands.congr (stands.afterSearches others).symm).solve_congr stands patient' patient

/-- A search for one solution with a listener, and then searches without. -/
theorem solve_restores_sample :
    ((sample.hide 4 [5, 6]).afterSearches [{}, { limit := some .two }] |>.solve
        { selector := .first, limit := some .one }).result
      = ((sample.hide 4 [5, 6]).solve
        { selector := .first, limit := some .one, listener := some .patient }).result := by
  have heard : ({ selector := .first, limit := some .one, listener := some .patient } :
      Options).Patient := by
    rintro listener ⟨⟩
    exact fun _ _ => rfl
  have restores := solve_restores built_sample (.cover (c := 4) .start rfl) heard
  exact restores.2.2.2 _ _ (by simp [Options.Patient]) (by simp [Options.Patient]) rfl rfl

/-! ## The covers -/

/-- A solution at the end of a branch consists of the choices of the branch, turned to the columns
that were branched on. -/
theorem Stands.choices_ofBranch (stands : m.Stands p covered) {branch : List (Choice Nat × Nat)}
    (mem : branch ∈ (p.without covered).branches o.selector) :
    (Solution.ofBranch branch).choices m.mesh
      = branch.map fun b => (b.1.startingAt b.2).map m.mesh.labelText := by
  rw [Solution.choices, Solution.ofBranch, List.map_map]
  refine List.map_congr_left fun b hb => ?_
  obtain ⟨hr, used⟩ := Problem.of_mem_branches mem b hb
  have row := stands.shows.holds.rows b.1 (Problem.mem_choices_without.1 hr).1
  have head : (b.1.nodesFrom b.2).headD primaryRoot = b.1.node b.2 := by
    rw [Choice.nodesFrom, Choice.columns_startingAt used]
    rfl
  have columns : (b.1.nodesFrom b.2).map (fun node =>
      m.mesh.labelText (m.mesh.columnHeader.get node))
      = (b.1.startingAt b.2).columns.map m.mesh.labelText := by
    rw [Choice.nodesFrom, List.map_map]
    refine List.map_congr_left fun d hd => ?_
    rw [Function.comp_apply, row.entries d (Choice.columns_startingAt_perm.mem_iff.1 hd)]
  simp only [Function.comp_apply, Solution.choice, head, row.rowHeader_node used, row.label, columns]
  rfl

/-- The solutions of what is left are its covers, by the names of the columns. -/
theorem Stands.map_choices_solutions (stands : m.Stands p covered) (s : Selector) :
    (Stands.solutions p covered s).map (Solution.choices m.mesh)
      = ((p.without covered).map m.mesh.labelText).covers s := by
  rw [Problem.covers_map (stands.declares.without covered) (stands.faithful.without covered),
    Problem.covers_eq_branches, Stands.solutions, List.map_map, List.map_map]
  refine List.map_congr_left fun branch mem => ?_
  rw [Function.comp_apply, stands.choices_ofBranch (o := { selector := s }) mem,
    Function.comp_apply, List.map_map]
  rfl

/-- A search on a matrix with all columns uncovered finds the covers of plain Algorithm X, in their
order, with the rows' names and columns as they are chosen. -/
theorem solve_eq_covers (built : Built m q) (unlimited : o.limit = none) (patient : o.Patient) :
    ∃ solutions, (m.solve o).result = .ok solutions ∧
      solutions.map (Solution.choices m.mesh) = q.covers o.selector ∧
      solutions.map (Solution.rowNames m.mesh)
        = (q.covers o.selector).map (List.map Choice.name) ∧
      solutions.map (Solution.columnNames m.mesh)
        = (q.covers o.selector).map (List.map Choice.columns) := by
  obtain ⟨p, stands, names, -⟩ := built.stands .start
  have result := (stands.solve patient).1
  rw [Options.cut_of_unlimited unlimited] at result
  have covers := stands.map_choices_solutions o.selector
  rw [p.without_nil, names] at covers
  refine ⟨_, result, covers, ?_, ?_⟩
  · rw [← covers, List.map_map]
    exact List.map_congr_left fun s _ => (s.map_name_choices m.mesh).symm
  · rw [← covers, List.map_map]
    exact List.map_congr_left fun s _ => (s.map_columns_choices m.mesh).symm

/-- The second row is chosen first, since fewer rows use its column. -/
theorem solve_eq_covers_sample : ∃ solutions, (sample.solve {}).result = .ok solutions ∧
    solutions.map (Solution.choices sample.mesh)
      = [[⟨8, "q", ["B"]⟩, ⟨5, "p", ["A", "X"]⟩], [⟨8, "q", ["B"]⟩, ⟨10, "p", ["A"]⟩]] := by
  obtain ⟨solutions, result, choices, -⟩ := solve_eq_covers (o := {}) built_sample rfl nofun
  refine ⟨solutions, result, choices.trans ?_⟩
  decide +kernel

/-! ## Exactness -/

/-- The solutions of what is left are told by the numbers along its branches. -/
theorem Stands.map_rowHeaders_solutions (stands : m.Stands p covered) (s : Selector) :
    (Stands.solutions p covered s).map (Solution.rowHeaders m.mesh)
      = (((p.map m.mesh.labelText).without (covered.map m.mesh.labelText)).branches s).map
        Problem.numbers := by
  rw [Problem.map_without stands.declares stands.faithful stands.shows.covered_mem,
    Problem.branches_map (stands.declares.without covered) (stands.faithful.without covered),
    Stands.solutions, List.map_map, List.map_map]
  refine List.map_congr_left fun branch mem => ?_
  rw [Function.comp_apply, Solution.rowHeaders_eq,
    stands.choices_ofBranch (o := { selector := s }) mem, Function.comp_apply, Problem.numbers,
    List.map_map, List.map_map]
  rfl

/-- The solver is exact: read as sets of rows, the solutions that a search without a limit finds are
those that solve what the covered columns leave of the problem, and it finds none of them twice. -/
theorem solve_exact (built : Built start q) (nested : Nested start covered m)
    (unlimited : o.limit = none) (patient : o.Patient) :
    ∃ solutions, (m.solve o).result = .ok solutions ∧
      (solutions.map (Solution.rowHeaders m.mesh)).Nodup ∧
      ∀ T, T ∈ solutions.map (Solution.rowHeaders m.mesh) ↔
        q.Solves (covered.map start.mesh.labelText) T := by
  obtain ⟨p, stands, names, labels⟩ := built.stands nested
  have result := (stands.solve patient).1
  rw [Options.cut_of_unlimited unlimited] at result
  have declares : q.Declares := names ▸ Problem.Declares.map stands.declares m.mesh.labelText
  have different : (q.choices.map Choice.number).Nodup := by
    rw [← names, Problem.map_number_map]
    exact stands.different
  have kept : (((q.without (covered.map start.mesh.labelText)).choices.map Choice.number)).Nodup :=
    different.sublist (List.filter_sublist.map _)
  have sets := stands.map_rowHeaders_solutions o.selector
  rw [names, labels] at sets
  refine ⟨_, result, ?_, fun T => ?_⟩
  · rw [sets]
    exact Problem.nodup_map_numbers kept
  · rw [sets]
    exact Problem.mem_map_numbers_without different declares

/-- With its secondary column covered one solution of the sample is left. -/
theorem solve_exact_sample : ∃ solutions, ((sample.hide 4 [5, 6]).solve {}).result = .ok solutions ∧
    (solutions.map (Solution.rowHeaders sample.mesh)).Nodup ∧
    ∀ T, T ∈ solutions.map (Solution.rowHeaders sample.mesh) ↔ sampleProblem.Solves ["X"] T :=
  solve_exact (o := {}) built_sample (.cover (c := 4) .start rfl) rfl nofun

end Matrix

end DancingLinks
