import DancingLinks.Proofs.Search.Listeners
import DancingLinks.Proofs.Search.Uniform

/-!
# Searches that come to their end

A refused event always breaks a search off, so a search that ends with solutions was refused nothing:
it is the search of a patient listener (`Matrix.solve_of_ok`). So whoever listens, what a puzzle in its
text form is solved by was decoded from covers (`exists_cover_of_solveEncoded`), in the order of the
branches (`Problem.Encodes.solutions_eq`).
-/

namespace DancingLinks

open DancingLinks.Matrix (Built ofConstraintLines)

variable {α β : Type} {o : Options} {l l' : Listener}

namespace Search

/-! ## Steps that end with a value -/

/-- When a step ends with a value the other one does the same. -/
def Persists (step step' : Search α) : Prop :=
  ∀ run a, (step run).1 = .ok a → step' run = step run

theorem persists_refl (step : Search α) : Persists step step := fun _ _ _ => rfl

/-- An event that was not refused is accepted by a patient listener too. -/
theorem persists_send (event : Event) :
    Persists (send (o.hearing l) event) (send (o.hearing .patient) event) := by
  intro run a ended
  simp only [send, Options.hearing] at ended ⊢
  split at ended
  · next accepted => simp only [Listener.patient, accepted]
  · cases ended

/-- Steps one after the other. -/
theorem Persists.bind {step step' : Search α} {next next' : α → Search β}
    (first : Persists step step') (rest : ∀ a, Persists (next a) (next' a)) :
    Persists (step >>= next) (step' >>= next') := by
  intro run b ended
  rw [bind_apply] at ended
  have same := first run
  rw [bind_apply, bind_apply]
  generalize step run = ran at ended same ⊢
  obtain ⟨result, after⟩ := ran
  cases result with
  | error fault => cases ended
  | ok a =>
    rw [same a rfl]
    exact rest a after b ended

/-- A cleanup after a step. -/
theorem Persists.ensuring {step step' : Search α} {cleanup cleanup' : Search Unit}
    (inner : Persists step step') (last : Persists cleanup cleanup') :
    Persists (ensuring step cleanup) (ensuring step' cleanup') := by
  intro run a ended
  have same := inner run
  unfold Search.ensuring at ended ⊢
  generalize step run = ran at ended same ⊢
  obtain ⟨result, after⟩ := ran
  have same' := last after
  dsimp only at ended ⊢
  generalize cleanup after = cleaned at ended same' ⊢
  obtain ⟨answer, after'⟩ := cleaned
  cases answer with
  | error fault => cases ended
  | ok =>
    obtain rfl : result = .ok a := ended
    simp only [same a rfl, same' () rfl]

/-! ## The search -/

/-- A row that is tried. -/
theorem Persists.tryRow {below below' : Search Bool} (inner : Persists below below')
    (level entry : Nat) :
    Persists (tryRow (o.hearing l) level below entry)
      (tryRow (o.hearing .patient) level below' entry) := by
  refine (persists_send _).bind fun _ => (persists_refl _).bind fun columns => ?_
  refine (persists_refl _).bind fun ⟨covered, outcome⟩ => ?_
  refine Persists.ensuring ?_ ((persists_refl _).bind fun _ => persists_send _)
  cases outcome with
  | ok => exact inner
  | error fault => exact persists_refl _

/-- Rows that are tried in order. -/
theorem Persists.tryRows {attempt attempt' : Nat → Search Bool}
    (each : ∀ entry, Persists (attempt entry) (attempt' entry)) (found : Bool) (entries : List Nat) :
    Persists (tryRows (o.hearing l) attempt found entries)
      (tryRows (o.hearing .patient) attempt' found entries) := by
  induction entries generalizing found with
  | nil => exact persists_refl _
  | cons entry entries ih =>
    refine (each entry).bind fun more => ?_
    cases more with
    | false => exact ih found
    | true =>
      refine (persists_refl (limitReached o)).bind fun full => ?_
      cases full with
      | false => exact ih true
      | true => exact persists_refl _

/-- A level that ends with a value is that of a patient listener. -/
theorem level_persists (room : Nat) (progress : List Nat) :
    Persists (level (o.hearing l) room progress) (level (o.hearing .patient) room progress) := by
  induction room generalizing progress with
  | zero => exact persists_refl _
  | succ room ih =>
    refine (persists_send _).bind fun _ => (persists_refl _).bind fun empty => ?_
    cases empty with
    | true => exact (persists_send _).bind fun _ => persists_refl _
    | false =>
      refine Persists.bind ?_ fun _ => (persists_refl _).bind fun column => ?_
      · exact (persists_refl _).bind fun _ => (persists_refl _).bind fun _ => persists_send _
      refine (persists_refl _).bind fun _ => (persists_send _).bind fun _ => ?_
      refine Persists.ensuring ((persists_refl _).bind fun entries => ?_)
        ((persists_refl _).bind fun _ => persists_send _)
      exact Persists.tryRows (fun entry => (ih _).tryRow _ entry) false entries

end Search

/-! ## What was found -/

variable {m : Matrix} {q : Problem String} {solutions : List Solution} {lines : List String}

/-- A search that ends with solutions is that of a patient listener. -/
theorem Matrix.solve_of_ok (ended : (m.solve o).result = .ok solutions) :
    ∃ o' : Options, o'.Patient ∧ o'.selector = o.selector ∧ o'.limit = o.limit ∧
      m.solve o' = m.solve o := by
  obtain ⟨selector, limit, listener⟩ := o
  cases listener with
  | none => exact ⟨⟨selector, limit, none⟩, nofun, rfl, rfl, rfl⟩
  | some l =>
    refine ⟨⟨selector, limit, some .patient⟩, ?_, rfl, rfl, ?_⟩
    · rintro listener ⟨⟩ number event
      rfl
    · rw [solve_result] at ended
      cases result : (Search.level ⟨selector, limit, some l⟩ m.levels [] { matrix := m }).1 with
      | error fault =>
        rw [result] at ended
        cases ended
      | ok found =>
        have persists : Search.Persists (Search.level ⟨selector, limit, some l⟩ m.levels [])
            (Search.level ⟨selector, limit, some .patient⟩ m.levels []) :=
          Search.level_persists (o := ⟨selector, limit, none⟩) m.levels []
        rw [Matrix.solve, Matrix.solve, persists { matrix := m } found result]

/-- A search of lines that ends with names finds those along the branches, up to its limit, whoever
listens. -/
theorem solutions_of_solveLines {report : Report (List String)}
    (made : ofConstraintLines lines = .ok m) (built : Built m q)
    (solved : solveLines lines o = .ok report) :
    report.solutions = o.cut (q.branchNames o.selector) := by
  have ended : ∃ solutions, (m.solve o).result = .ok solutions := by
    obtain ⟨m', made', solved⟩ := ok_of_bind solved
    cases made.symm.trans made'
    obtain ⟨solutions, result, -⟩ := ok_of_bind solved
    exact ⟨solutions, result⟩
  obtain ⟨solutions, result⟩ := ended
  obtain ⟨o', patient, selector, limit, same⟩ := Matrix.solve_of_ok result
  have heard : solveLines lines o' = .ok report := by
    rw [← solved, solveLines, solveLines, made]
    simp only [bind, Except.bind, same]
  obtain ⟨messages, found⟩ := solveLines_eq made built patient
  cases heard.symm.trans found
  rw [selector, Options.cut, Options.cut, limit]

/-- They are the names of covers. -/
theorem exists_cover_of_solveLines {report : Report (List String)}
    (made : ofConstraintLines lines = .ok m) (built : Built m q)
    (solved : solveLines lines o = .ok report) :
    ∀ names ∈ report.solutions, ∃ rows, q.IsCover rows ∧ rows.map Choice.name = names := by
  intro names mem
  rw [solutions_of_solveLines made built solved] at mem
  exact Problem.exists_cover_of_mem (Options.mem_of_mem_cut mem)

/-- The solutions of a puzzle in its text form are decoded from covers, whoever listens. -/
theorem exists_cover_of_solveEncoded {decode : List String → Except Fault α} {report : Report α}
    (made : ofConstraintLines lines = .ok m) (built : Built m q)
    (solved : solveEncoded lines decode o = .ok report) :
    ∀ a ∈ report.solutions, ∃ rows, q.IsCover rows ∧ decode (rows.map Choice.name) = .ok a := by
  obtain ⟨found, linesSolved, solved⟩ := ok_of_bind solved
  obtain ⟨solutions, decoded, solved⟩ := ok_of_bind solved
  cases solved
  intro a mem
  obtain ⟨names, hnames, here⟩ := exists_of_mem_mapM decoded mem
  obtain ⟨rows, cover, rfl⟩ := exists_cover_of_solveLines made built linesSolved names hnames
  exact ⟨rows, cover, here⟩

/-- What a puzzle in its text form is solved by is decoded from the candidates along the branches, up to
the limit, whoever listens. -/
theorem Problem.Encodes.solutions_eq {κ : Type} {candidates : List κ} {name : κ → String}
    {uses : κ → List String} {read : String → κ} {decode : List String → Except Fault α}
    {solution : List κ → α} {report : Report α} (encodes : q.Encodes candidates name uses read)
    (made : ofConstraintLines lines = .ok m) (built : Built m q)
    (known : ∀ branch ∈ q.branches o.selector, ∀ a,
      decode ((selection read branch).map name) = .ok a → a = solution (selection read branch))
    (solved : solveEncoded lines decode o = .ok report) :
    report.solutions = (o.cut ((q.branches o.selector).map (selection read))).map solution := by
  obtain ⟨found, linesSolved, solved⟩ := ok_of_bind solved
  obtain ⟨solutions, decoded, solved⟩ := ok_of_bind solved
  cases solved
  rw [solutions_of_solveLines made built linesSolved, encodes.branchNames_eq, ← Options.map_cut,
    List.mapM_map] at decoded
  refine eq_map_of_mapM decoded fun cells mem a here => ?_
  obtain ⟨branch, hb, rfl⟩ := List.mem_map.1 (Options.mem_of_mem_cut mem)
  exact known branch hb a here

/-- The solutions of a puzzle are decoded from good selections, when its covers are named after such. -/
theorem NamesCovers.exists_cells {κ : Type} {name : κ → String} {Good : List κ → Prop}
    {decode : List String → Except Fault α} {report : Report α}
    (named : NamesCovers lines name Good) (solved : solveEncoded lines decode o = .ok report) :
    ∀ a ∈ report.solutions, ∃ cells, Good cells ∧ decode (cells.map name) = .ok a := by
  obtain ⟨found, linesSolved, -⟩ := ok_of_bind solved
  obtain ⟨m, made, -⟩ := ok_of_bind linesSolved
  obtain ⟨q, built, covers⟩ := named m made
  intro a mem
  obtain ⟨rows, cover, decoded⟩ := exists_cover_of_solveEncoded made built solved a mem
  obtain ⟨cells, good, names⟩ := covers rows cover
  exact ⟨cells, good, names ▸ decoded⟩

end DancingLinks
