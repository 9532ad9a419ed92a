import DancingLinks.Proofs.Matrix.Lines
import DancingLinks.Proofs.Matrix.Rendering
import DancingLinks.Proofs.Outcome
import DancingLinks.Proofs.Search.Solve
import DancingLinks.Search.Encoded

/-!
# Puzzles that are solved through their text form

A puzzle has candidates, each with a name and with the demands that it meets. Some candidates `Fit`
when they meet every primary demand once and every secondary demand at most once. If lines describe
the matrix of these demands, and a candidate is known by its name, then solving the lines finds
exactly the selections that fit, each of them once (`solveLines_fits`); solutions are decoded from
the names of these (`solveEncoded_ok`).
-/

namespace DancingLinks

open DancingLinks.Matrix (Built ofConstraintLines)

variable {κ : Type} {candidates cells cells' : List κ} {name : κ → String}
  {uses : κ → List String} {primary secondary : List String} {read : String → κ}

/-- Some candidates meet every primary demand once and every secondary demand at most once, and none
of them is useless. -/
structure Fits (candidates : List κ) (uses : κ → List String) (primary secondary : List String)
    (cells : List κ) : Prop where
  distinct : cells.Nodup
  available : ∀ c ∈ cells, c ∈ candidates
  useful : ∀ c ∈ cells, ∃ d ∈ primary, d ∈ uses c
  primary : ∀ d ∈ primary, cells.countP (d ∈ uses ·) = 1
  secondary : ∀ d ∈ secondary, cells.countP (d ∈ uses ·) ≤ 1

/-- Choices that say what candidates do have the candidates' names and columns. -/
theorem Problem.exists_candidates {p : Problem String} {rows : List (Choice String)}
    (contents : p.choices.map Choice.content = candidates.map fun c => (name c, uses c))
    (available : ∀ r ∈ rows, r ∈ p.choices) :
    ∃ cells : List κ, (∀ c ∈ cells, c ∈ candidates) ∧
      rows.map Choice.content = cells.map fun c => (name c, uses c) := by
  induction rows with
  | nil => exact ⟨[], nofun, rfl⟩
  | cons r rows ih =>
    obtain ⟨first, others⟩ := List.forall_mem_cons.1 available
    obtain ⟨cells, known, same⟩ := ih others
    have mem : r.content ∈ candidates.map fun c => (name c, uses c) :=
      contents ▸ List.mem_map_of_mem first
    obtain ⟨c, hc, content⟩ := List.mem_map.1 mem
    refine ⟨c :: cells, List.forall_mem_cons.2 ⟨hc, known⟩, ?_⟩
    rw [List.map_cons, List.map_cons, same, content]

/-- The choices of a cover have the names of candidates that use every primary column once. -/
theorem Problem.IsCover.exists_candidates {p : Problem String} {rows : List (Choice String)}
    (cover : p.IsCover rows)
    (contents : p.choices.map Choice.content = candidates.map fun c => (name c, uses c)) :
    ∃ cells : List κ, (∀ c ∈ cells, c ∈ candidates) ∧ rows.map Choice.name = cells.map name ∧
      ∀ d ∈ p.primary, cells.countP (d ∈ uses ·) = 1 := by
  obtain ⟨cells, known, same⟩ := Problem.exists_candidates contents cover.available
  refine ⟨cells, known, ?_, fun d hd => ?_⟩
  · have names := congrArg (List.map Prod.fst) same
    rwa [List.map_map, List.map_map] at names
  · have counts := congrArg (List.countP (d ∈ ·.2)) same
    rw [List.countP_map, List.countP_map] at counts
    exact counts.symm.trans (cover.primary d hd)

/-- A problem with one choice per candidate, which is known by its name. -/
structure Problem.Encodes (p : Problem String) (candidates : List κ) (name : κ → String)
    (uses : κ → List String) (read : String → κ) : Prop where
  contents : p.choices.map Choice.content = candidates.map fun c => (name c, uses c)
  distinct : candidates.Nodup
  known : ∀ c ∈ candidates, read (name c) = c

namespace Problem.Encodes

variable {p : Problem String} {r : Choice String} {rows : List (Choice String)} {s : Selector}

/-- The candidates are those of the choices. -/
theorem map_read (h : p.Encodes candidates name uses read) :
    p.choices.map (fun r => read r.name) = candidates := by
  have names : p.choices.map Choice.name = candidates.map name := by
    have := congrArg (List.map Prod.fst) h.contents
    rwa [List.map_map, List.map_map] at this
  calc p.choices.map (fun r => read r.name) = (p.choices.map Choice.name).map read := by
        rw [List.map_map]; rfl
    _ = candidates.map fun c => read (name c) := by rw [names, List.map_map]; rfl
    _ = candidates := (List.map_congr_left h.known).trans (List.map_id candidates)

/-- The candidate of a choice. -/
theorem of_mem (h : p.Encodes candidates name uses read) (hr : r ∈ p.choices) :
    read r.name ∈ candidates ∧ r.name = name (read r.name) ∧ r.columns = uses (read r.name) := by
  have mem : r.content ∈ candidates.map fun c => (name c, uses c) :=
    h.contents ▸ List.mem_map_of_mem hr
  obtain ⟨c, hc, content⟩ := List.mem_map.1 mem
  have names : name c = r.name := congrArg Prod.fst content
  have columns : uses c = r.columns := congrArg Prod.snd content
  rw [← names, h.known c hc]
  exact ⟨hc, rfl, columns.symm⟩

/-- Choices have the names of their candidates. -/
theorem map_name (h : p.Encodes candidates name uses read) (mem : ∀ r ∈ rows, r ∈ p.choices) :
    rows.map Choice.name = (rows.map fun r => read r.name).map name := by
  rw [List.map_map]
  exact List.map_congr_left fun r hr => (h.of_mem (mem r hr)).2.1

/-- Different choices have different candidates. -/
theorem inj (h : p.Encodes candidates name uses read) :
    ∀ r ∈ p.choices, ∀ r' ∈ p.choices, read r.name = read r'.name → r = r' := by
  have nodup : (p.choices.map fun r => read r.name).Nodup := h.map_read ▸ h.distinct
  exact fun r hr r' hr' same => List.inj_on_of_nodup_map nodup hr hr' same

/-- Candidates are those of some choices. -/
theorem exists_rows (h : p.Encodes candidates name uses read)
    (available : ∀ c ∈ cells, c ∈ candidates) :
    ∃ rows : List (Choice String), rows.map (fun r => read r.name) = cells ∧
      ∀ r ∈ rows, r ∈ p.choices := by
  induction cells with
  | nil => exact ⟨[], rfl, nofun⟩
  | cons c cells ih =>
    obtain ⟨first, others⟩ := List.forall_mem_cons.1 available
    rw [← h.map_read] at first
    obtain ⟨r, hr, rfl⟩ := List.mem_map.1 first
    obtain ⟨rows, rfl, mem⟩ := ih others
    exact ⟨r :: rows, rfl, List.forall_mem_cons.2 ⟨hr, mem⟩⟩

/-- The choices of a cover have candidates that fit, and the other way round. -/
theorem isCover_iff (h : p.Encodes candidates name uses read) (mem : ∀ r ∈ rows, r ∈ p.choices) :
    p.IsCover rows ↔
      Fits candidates uses p.primary p.secondary (rows.map fun r => read r.name) := by
  have columns : ∀ r ∈ rows, r.columns = uses (read r.name) := fun r hr => (h.of_mem (mem r hr)).2.2
  have counts : ∀ d, (rows.map fun r => read r.name).countP (d ∈ uses ·) = Problem.uses rows d := by
    intro d
    rw [List.countP_map, Problem.uses]
    refine List.countP_congr fun r hr => ?_
    rw [Function.comp_apply, columns r hr]
  constructor
  · intro cover
    refine ⟨cover.distinct.map_on fun r hr r' hr' => h.inj r (mem r hr) r' (mem r' hr'), ?_, ?_,
      fun d hd => (counts d).trans (cover.primary d hd),
      fun d hd => (counts d).trans_le (cover.secondary d hd)⟩
    · intro c hc
      obtain ⟨r, hr, rfl⟩ := List.mem_map.1 hc
      exact (h.of_mem (mem r hr)).1
    · intro c hc
      obtain ⟨r, hr, rfl⟩ := List.mem_map.1 hc
      rw [← columns r hr]
      exact cover.useful r hr
  · intro fits
    refine ⟨fits.distinct.of_map, mem, fun r hr => ?_,
      fun d hd => (counts d).symm.trans (fits.primary d hd),
      fun d hd => (counts d).symm.trans_le (fits.secondary d hd)⟩
    rw [columns r hr]
    exact fits.useful _ (List.mem_map_of_mem hr)

/-- The candidates along a branch. -/
def selection (read : String → κ) (branch : List (Choice String × String)) : List κ :=
  (branch.map Prod.fst).map fun r => read r.name

/-- The candidates along the branches are the selections that fit, in some order. -/
theorem exists_perm_iff (h : p.Encodes candidates name uses read) (declares : p.Declares) :
    (∃ found ∈ (p.branches s).map (Encodes.selection read), found.Perm cells') ↔
      Fits candidates uses p.primary p.secondary cells' := by
  constructor
  · rintro ⟨found, mem, same⟩
    obtain ⟨branch, hb, rfl⟩ := List.mem_map.1 mem
    have cover := isCover_of_mem_branches hb
    have fits := (h.isCover_iff cover.available).1 cover
    have counts : ∀ d, cells'.countP (d ∈ uses ·) = (Encodes.selection read branch).countP (d ∈ uses ·) :=
      fun d => (same.countP_eq _).symm
    exact ⟨same.nodup_iff.1 fits.distinct, fun c hc => fits.available c (same.mem_iff.2 hc),
      fun c hc => fits.useful c (same.mem_iff.2 hc), fun d hd => (counts d).trans (fits.primary d hd),
      fun d hd => (counts d).trans_le (fits.secondary d hd)⟩
  · intro fits
    obtain ⟨rows, rfl, mem⟩ := h.exists_rows fits.available
    obtain ⟨branch, hb, same⟩ := exists_branch (s := s) declares ((h.isCover_iff mem).2 fits)
    exact ⟨_, List.mem_map_of_mem hb, same.map _⟩

/-- No selection is found twice, in whichever order. -/
theorem pairwise_selections (h : p.Encodes candidates name uses read) :
    ((p.branches s).map (Encodes.selection read)).Pairwise fun a b => ¬a.Perm b := by
  have nodup : p.choices.Nodup := by
    have := h.distinct
    rw [← h.map_read] at this
    exact this.of_map
  rw [List.pairwise_map]
  refine (pairwise_branches nodup).imp_of_mem fun {a b} ha hb differ same => differ ?_
  have available : ∀ branch ∈ p.branches s, ∀ r ∈ branch.map Prod.fst, r ∈ p.choices :=
    fun branch mem => (isCover_of_mem_branches mem).available
  -- A choice is told by its candidate, so the same candidates come from the same choices.
  refine (List.perm_ext_iff_of_nodup (isCover_of_mem_branches ha).distinct
    (isCover_of_mem_branches hb).distinct).2 fun r => ?_
  have sub : ∀ {xs ys : List (Choice String)}, (∀ x ∈ xs, x ∈ p.choices) → (∀ y ∈ ys, y ∈ p.choices) →
      (xs.map fun r => read r.name).Perm (ys.map fun r => read r.name) → r ∈ xs → r ∈ ys := by
    intro xs ys hxs hys same hr
    obtain ⟨r', hr', eq⟩ := List.mem_map.1 (same.mem_iff.1 (List.mem_map_of_mem hr))
    exact h.inj r' (hys r' hr') r (hxs r hr) eq ▸ hr'
  exact ⟨sub (available a ha) (available b hb) same, sub (available b hb) (available a ha) same.symm⟩

end Problem.Encodes

/-! ## Lines of candidates -/

/-- Candidates that can be written as rows over some columns, and be read back. -/
structure Writable (candidates : List κ) (name : κ → String) (uses : κ → List String)
    (columns : List String) (read : String → κ) : Prop where
  distinct : candidates.Nodup
  known : ∀ c ∈ candidates, read (name c) = c
  plain : ∀ c ∈ candidates, Matrix.Plain (name c)
  different : columns.Nodup
  plainColumns : ∀ d ∈ columns, Matrix.Plain d
  declared : ∀ c ∈ candidates, uses c ⊆ columns
  nodup : ∀ c ∈ candidates, (uses c).Nodup

/-- A matrix that the lines of candidates become was built for what their rows say. -/
theorem Matrix.of_rowTexts {header : String} {m : Matrix} (solid : Text.isBlankText header = false)
    (names : columnNames header = (primary, secondary))
    (made : ofConstraintLines (header :: candidates.map fun c => rowText (name c) (uses c)) = .ok m) :
    ∃ choices, Built m ⟨primary, secondary, choices⟩ ∧ choices.map Choice.content
      = lineContents rowValues 1 (candidates.map fun c => rowText (name c) (uses c)) := by
  obtain ⟨header', rows, choices, lines, built, contents⟩ := of_ofConstraintLines made
  rw [solid_rowTexts solid, List.cons.injEq] at lines
  obtain ⟨rfl, rfl⟩ := lines
  rw [names] at built
  exact ⟨choices, built, contents⟩

/-- The lines of candidates become a matrix that encodes them. -/
theorem Writable.ofConstraintLines_ok {header : String}
    (writable : Writable candidates name uses (primary ++ secondary) read)
    (names : Matrix.columnNames header = (primary, secondary))
    (solid : Text.isBlankText header = false) (any : candidates ≠ []) :
    ∃ m choices,
      ofConstraintLines (header :: candidates.map fun c => Matrix.rowText (name c) (uses c))
        = .ok m ∧
      Built m ⟨primary, secondary, choices⟩ ∧
      (Problem.mk primary secondary choices).Encodes candidates name uses read := by
  have values : ∀ c ∈ candidates, Matrix.rowValues (Matrix.rowText (name c) (uses c)) = uses c :=
    fun c hc => Matrix.rowValues_rowText (writable.plain c hc) fun d hd =>
      writable.plainColumns d (writable.declared c hc hd)
  have lines := Matrix.solid_rowTexts solid candidates name uses
  have describe : Matrix.DescribeRows (fun line => .ok (Matrix.rowValues line)) Matrix.rowValues
      (primary ++ secondary) (candidates.map fun c => Matrix.rowText (name c) (uses c)) := by
    refine ⟨fun line _ => rfl, fun line mem => ?_, fun line mem => ?_⟩
    · obtain ⟨c, hc, rfl⟩ := List.mem_map.1 mem
      rw [values c hc]
      exact fun d hd => writable.declared c hc hd
    · obtain ⟨c, hc, rfl⟩ := List.mem_map.1 mem
      rw [values c hc]
      exact writable.nodup c hc
  have rows : candidates.map (fun c => Matrix.rowText (name c) (uses c)) ≠ [] := by simpa using any
  obtain ⟨m, choices, made, built, contents⟩ :=
    Matrix.ofLines_ok lines rows names writable.different describe
  refine ⟨m, choices, made, built, ?_, writable.distinct, writable.known⟩
  rw [contents]
  exact Matrix.lineContents_map (fun c hc i => Matrix.rowName_rowText (writable.plain c hc) _) values 1

/-! ## Solving lines -/

variable {lines : List String} {m : Matrix} {q : Problem String} {o : Options}

/-- Meshes that are linked alike give the same names to rows. -/
theorem Solution.rowNames_congr {mesh mesh' : Mesh} (alike : mesh.Alike mesh') (s : Solution) :
    s.rowNames mesh = s.rowNames mesh' := by
  rw [rowNames, rowNames, alike.labelText, alike.rowHeader]

theorem Options.map_cut {α β : Type} (o : Options) (f : α → β) (xs : List α) :
    (o.cut xs).map f = o.cut (xs.map f) := by
  unfold cut
  cases o.limit with
  | none => rfl
  | some limit => exact List.map_take

theorem Options.cut_sublist {α : Type} (o : Options) (xs : List α) : (o.cut xs).Sublist xs := by
  unfold cut
  cases o.limit with
  | none => exact .refl xs
  | some limit => exact List.take_sublist _ xs

theorem Options.mem_of_mem_cut {α : Type} {o : Options} {x : α} {xs : List α} (mem : x ∈ o.cut xs) :
    x ∈ xs :=
  (o.cut_sublist xs).subset mem

/-- The names of the choices along the branches. -/
def Problem.branchNames (q : Problem String) (s : Selector) : List (List String) :=
  (q.branches s).map fun branch => (branch.map Prod.fst).map Choice.name

/-- The solutions that are found have the names of the choices along the branches. -/
theorem Matrix.Built.map_rowNames (built : Built m q) (s : Selector) :
    ∃ p, m.Stands p [] ∧
      (Stands.solutions p [] s).map (Solution.rowNames m.mesh) = q.branchNames s := by
  obtain ⟨stands, names⟩ := built.stands_numbered .start
  refine ⟨_, stands, ?_⟩
  have covers := stands.map_choices_solutions s
  rw [q.numbered.without_nil, names, Problem.covers_eq_branches] at covers
  have kept : Solution.rowNames m.mesh = List.map Choice.name ∘ Solution.choices m.mesh :=
    funext fun solution => (solution.map_name_choices m.mesh).symm
  rw [kept, ← List.map_map, covers, List.map_map, Problem.branchNames]
  refine List.map_congr_left fun branch _ => ?_
  rw [Function.comp_apply, List.map_map, List.map_map]
  rfl

/-- A search of lines finds the names along the branches, up to its limit. -/
theorem solveLines_eq (made : ofConstraintLines lines = .ok m) (built : Built m q)
    (patient : o.Patient) :
    ∃ messages, solveLines lines o = .ok ⟨o.cut (q.branchNames o.selector), messages⟩ := by
  obtain ⟨p, stands, rowNames⟩ := built.map_rowNames o.selector
  obtain ⟨result, alike⟩ := stands.solve patient
  rw [← funext (Solution.rowNames_congr alike.mesh)] at rowNames
  refine ⟨(m.solve o).events.map (Event.text (m.solve o).matrix.mesh), ?_⟩
  simp only [solveLines, made, bind, Except.bind, result, pure, Except.pure, Options.map_cut,
    rowNames]

/-- Along a branch the choices have the names of their candidates. -/
theorem Problem.Encodes.branchNames_eq (encodes : q.Encodes candidates name uses read) (s : Selector) :
    q.branchNames s = ((q.branches s).map (selection read)).map (List.map name) := by
  rw [branchNames, List.map_map]
  refine List.map_congr_left fun branch mem => ?_
  exact encodes.map_name (isCover_of_mem_branches mem).available

/-- Solving the lines of a puzzle finds the names of the selections that fit, each of them once; a
limit cuts them off. -/
theorem solveLines_fits {choices : List (Choice String)}
    (made : ofConstraintLines lines = .ok m)
    (built : Built m ⟨primary, secondary, choices⟩)
    (encodes : (Problem.mk primary secondary choices).Encodes candidates name uses read)
    (s : Selector) :
    ∃ found : List (List κ), found.Pairwise (fun a b => ¬a.Perm b) ∧
      (∀ cells, (∃ cells' ∈ found, cells'.Perm cells) ↔
        Fits candidates uses primary secondary cells) ∧
      ∀ o : Options, o.selector = s → o.Patient →
        ∃ messages, solveLines lines o = .ok ⟨o.cut (found.map (List.map name)), messages⟩ := by
  refine ⟨_, encodes.pairwise_selections (s := s),
    fun cells => encodes.exists_perm_iff built.declares, fun o selector patient => ?_⟩
  obtain ⟨messages, solved⟩ := solveLines_eq made built patient
  exact ⟨messages, by rw [solved, selector, encodes.branchNames_eq]⟩

/-- What is found is decoded, when all of it can be. -/
theorem solveEncoded_ok {α : Type} {lines messages : List String} {o : Options}
    {found : List (List κ)} {decode : List String → Except Fault α} {solution : List κ → α}
    (solved : solveLines lines o = .ok ⟨o.cut (found.map (List.map name)), messages⟩)
    (decodes : ∀ cells ∈ found, decode (cells.map name) = .ok (solution cells)) :
    solveEncoded lines decode o = .ok ⟨o.cut (found.map solution), messages⟩ := by
  have decoded : (o.cut (found.map (List.map name))).mapM decode
      = .ok (o.cut (found.map solution)) := by
    rw [← Options.map_cut, ← Options.map_cut, List.mapM_map]
    exact mapM_ok fun cells mem => decodes cells (Options.mem_of_mem_cut mem)
  simp only [solveEncoded, solved, bind, Except.bind, decoded]
  rfl

end DancingLinks
