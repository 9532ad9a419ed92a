import DancingLinks.Proofs.ExactCover.Renaming
import DancingLinks.Proofs.Matrix.Covering
import DancingLinks.Proofs.Mesh.Framed

/-!
# Building a matrix

A matrix that was built by adding rows stands for the problem that it was built for, with the names
of its columns replaced by the numbers of their headers (`Built.founded`).
-/

namespace DancingLinks

open DancingLinks.Matrix (primaryRoot secondaryRoot firstColumn)

variable {p : Problem Nat} {r : Choice Nat} {c y : Nat} {name : String} {names : List String}

/-! ## Columns -/

namespace Mesh

variable {m : Mesh}

/-- New column headers get the next numbers and the names in order; other labels stay. -/
theorem labelText_addHeaders (m : Mesh) (root : Nat) (names : List String) :
    (∀ y < m.size, (names.foldl (Matrix.addHeader root) m).labelText y = m.labelText y) ∧
      (names.foldl (Matrix.addHeader root) m).size = m.size + names.length ∧
      (List.range' m.size names.length).map (names.foldl (Matrix.addHeader root) m).labelText
        = names := by
  induction names generalizing m with
  | nil => simp
  | cons name names ih =>
    obtain ⟨old, size, new⟩ := ih (Matrix.addHeader root m name)
    have next : (Matrix.addHeader root m name).size = m.size + 1 := size_addNode m (some name)
    have first : (Matrix.addHeader root m name).labelText m.size = name := labelText_addNode_self
    rw [next] at old size new
    refine ⟨fun y lt => ?_, by rw [List.foldl_cons, size, List.length_cons]; omega, ?_⟩
    · rw [List.foldl_cons, old y (Nat.lt_succ_of_lt lt)]
      exact labelText_addNode lt
    · rw [List.foldl_cons, List.length_cons, List.range'_succ, List.map_cons, new,
        old _ (Nat.lt_succ_self _), first]

/-- Primary columns are added in order. -/
theorem Uncovered.addPrimaries {ps ss : List Nat} (h : m.Uncovered ⟨ps, ss, []⟩)
    (names : List String) :
    (names.foldl (Matrix.addHeader primaryRoot) m).Uncovered
      ⟨ps ++ List.range' m.size names.length, ss, []⟩ := by
  induction names generalizing m ps with
  | nil => simpa using h
  | cons name names ih =>
    have := ih (h.addPrimary name)
    rwa [show (Matrix.addHeader primaryRoot m name).size = m.size + 1 from size_addNode ..,
      List.append_assoc, List.singleton_append, ← List.range'_succ] at this

/-- Secondary columns are added in order. -/
theorem Uncovered.addSecondaries {ps ss : List Nat} (h : m.Uncovered ⟨ps, ss, []⟩)
    (names : List String) :
    (names.foldl (Matrix.addHeader secondaryRoot) m).Uncovered
      ⟨ps, ss ++ List.range' m.size names.length, []⟩ := by
  induction names generalizing m ss with
  | nil => simpa using h
  | cons name names ih =>
    have := ih (h.addSecondary name)
    rwa [show (Matrix.addHeader secondaryRoot m name).size = m.size + 1 from size_addNode ..,
      List.append_assoc, List.singleton_append, ← List.range'_succ] at this

end Mesh

/-! ## Matrices -/

namespace Matrix

variable {m m' : Matrix} {headers seen : List Nat}

/-- A matrix with all columns uncovered, as it is built for a problem. -/
structure Founded (m : Matrix) (p : Problem Nat) : Prop where
  uncovered : m.mesh.Uncovered p
  primary : p.primary = List.range' firstColumn m.primary.length
  secondary : p.secondary = List.range' (firstColumn + m.primary.length) m.secondary.length
  primaryNames : p.primary.map m.mesh.labelText = m.primary
  secondaryNames : p.secondary.map m.mesh.labelText = m.secondary
  rootLabel : m.mesh.labelText primaryRoot = primaryRootLabel

theorem Founded.named (h : m.Founded p) : m.Named p :=
  ⟨h.primary, h.secondary, h.primaryNames, h.secondaryNames⟩

theorem Founded.stands (h : m.Founded p) : m.Stands p [] :=
  ⟨h.uncovered.shows, h.primary, h.secondary, h.primaryNames, h.secondaryNames, h.rootLabel⟩

/-- The matrix of some columns has no rows. -/
theorem founded_ofColumns {primary secondary : List String}
    (made : ofColumns primary secondary = .ok m) :
    ∃ p, m.Founded p ∧ p.map m.mesh.labelText = ⟨primary, secondary, []⟩ := by
  unfold ofColumns at made
  split at made
  · cases made
  · cases made
    have roots := Mesh.uncovered_roots (some primaryRootLabel) (some secondaryRootLabel)
    have two : ((Mesh.empty.addNode (some primaryRootLabel)).addNode
        (some secondaryRootLabel)).size = firstColumn := rfl
    have first := roots.addPrimaries primary
    have second := first.addSecondaries secondary
    obtain ⟨old₁, size₁, names₁⟩ := Mesh.labelText_addHeaders
      ((Mesh.empty.addNode (some primaryRootLabel)).addNode (some secondaryRootLabel)) primaryRoot
      primary
    obtain ⟨old, -, names₂⟩ := Mesh.labelText_addHeaders (primary.foldl (addHeader primaryRoot)
        ((Mesh.empty.addNode (some primaryRootLabel)).addNode (some secondaryRootLabel)))
      secondaryRoot secondary
    rw [size₁, two] at second old names₂
    rw [two] at names₁
    have kept : (List.range' firstColumn primary.length).map
        (headerMesh primary secondary).labelText = primary := by
      refine Eq.trans (List.map_congr_left fun c mem => old c ?_) names₁
      exact (List.mem_range'_1.1 mem).2
    have root : (headerMesh primary secondary).labelText primaryRoot = primaryRootLabel :=
      (old primaryRoot (Nat.lt_add_right _ (by decide))).trans (old₁ primaryRoot (by decide))
    refine ⟨_, ⟨second, rfl, rfl, kept, names₂, root⟩, ?_⟩
    simp only [Problem.map, List.nil_append, List.map_nil]
    rw [kept]
    exact congrArg (Problem.mk primary · []) names₂

/-- A name that is in a list has the number of its place. -/
theorem numberOf_eq {name : String} {first : Nat} {names : List String} (mem : name ∈ names) :
    numberOf name first names = some (first + names.idxOf name) := by
  induction names generalizing first with
  | nil => cases mem
  | cons other names ih =>
    unfold numberOf
    split
    · next same => rw [same, List.idxOf_cons_self, Nat.add_zero]
    · next differ =>
      rw [ih (List.mem_of_ne_of_mem (Ne.symm differ) mem), List.idxOf_cons_ne _ differ]
      congr 1
      omega

/-- The header of a column that was declared is found by the place of its name. -/
theorem column_eq {name : String} (mem : name ∈ m.primary ++ m.secondary) :
    m.column name = .ok (firstColumn + (m.primary ++ m.secondary).idxOf name) := by
  unfold column column?
  by_cases primary : name ∈ m.primary
  · simp only [numberOf_eq primary, List.idxOf_append_of_mem primary]
  · have secondary := (List.mem_append.1 mem).resolve_left primary
    simp only [numberOf_eq_none_iff.2 primary, numberOf_eq secondary,
      List.idxOf_append_of_notMem primary, Nat.add_assoc]

/-- There is no header for a name that was not declared. -/
theorem column_eq_error {name : String} (absent : name ∉ m.primary ++ m.secondary) :
    m.column name = .error (.unknownColumn name) := by
  obtain ⟨primary, secondary⟩ := not_or.1 (mt List.mem_append.2 absent)
  simp only [column, column?, numberOf_eq_none_iff.2 primary, numberOf_eq_none_iff.2 secondary]

/-- A number found for a name is in the range, and is the number of that name. -/
theorem of_numberOf {names : List String} {first i : Nat} {label : Nat → String}
    (named : (List.range' first names.length).map label = names)
    (found : numberOf name first names = some i) :
    i ∈ List.range' first names.length ∧ label i = name := by
  obtain ⟨le, there⟩ := numberOf_eq_some found
  obtain ⟨lt, -⟩ := List.getElem?_eq_some_iff.1 there
  have number : first + (i - first) = i := by omega
  rw [← named, List.getElem?_map, List.getElem?_range' lt, Option.map_some, Nat.one_mul,
    number] at there
  exact ⟨List.mem_range'_1.2 ⟨le, by omega⟩, Option.some.inj there⟩

/-- The header that is found for a name is that of a column with this name. -/
theorem Named.of_column (h : m.Named p) (found : m.column name = .ok c) :
    c ∈ p.columns ∧ m.mesh.labelText c = name := by
  have primaryNames := h.primaryNames
  have secondaryNames := h.secondaryNames
  rw [h.primary] at primaryNames
  rw [h.secondary] at secondaryNames
  unfold column at found
  split at found
  · next header some =>
    cases found
    unfold column? at some
    rw [Problem.columns, h.primary, h.secondary]
    split at some
    · next number =>
      cases some
      obtain ⟨mem, label⟩ := of_numberOf primaryNames number
      exact ⟨List.mem_append_left _ mem, label⟩
    · obtain ⟨mem, label⟩ := of_numberOf secondaryNames some
      exact ⟨List.mem_append_right _ mem, label⟩
  · cases found

/-- The headers that a row lists are those of different columns with these names. -/
theorem Named.of_resolve (h : m.Named p) {row : String} {names : List String}
    (found : m.resolve row seen names = .ok headers) :
    headers.Nodup ∧ (∀ c ∈ headers, c ∉ seen ∧ c ∈ p.columns) ∧
      headers.map m.mesh.labelText = names := by
  induction names generalizing seen headers with
  | nil => cases found; simp
  | cons name names ih =>
    obtain ⟨c, isColumn, found⟩ := ok_of_bind found
    obtain ⟨mem, label⟩ := h.of_column isColumn
    split at found
    · cases found
    · next new =>
      obtain ⟨rest, resolved, made⟩ := ok_of_bind found
      cases made
      obtain ⟨nodup, members, labels⟩ := ih resolved
      refine ⟨List.nodup_cons.2 ⟨fun there => (members c there).1 List.mem_cons_self, nodup⟩,
        List.forall_mem_cons.2 ⟨⟨new, mem⟩, fun d there => ?_⟩, by rw [List.map_cons, label, labels]⟩
      obtain ⟨notSeen, declared⟩ := members d there
      exact ⟨fun before => notSeen (List.mem_cons_of_mem _ before), declared⟩

/-- A row is added for the choice that uses the columns it lists. -/
theorem Founded.addRow (h : m.Founded p) {columns : List String}
    (added : m.addRow name columns = .ok m') :
    ∃ headers, m'.Founded (p.add ⟨m.mesh.size, name, headers⟩) ∧
      headers.map m'.mesh.labelText = columns ∧
      ∀ c ∈ p.columns, m'.mesh.labelText c = m.mesh.labelText c := by
  obtain ⟨headers, resolved, made⟩ := ok_of_bind added
  cases made
  obtain ⟨nodup, members, labels⟩ := h.named.of_resolve resolved
  have declared : ∀ c ∈ headers, c ∈ p.columns := fun c mem => (members c mem).2
  have old : ∀ c ∈ p.columns,
      (addRowMesh m.mesh name headers).labelText c = m.mesh.labelText c := fun c mem =>
    (Mesh.remains_addRowMesh ..).labelText (h.uncovered.column_lt mem)
  have root : (addRowMesh m.mesh name headers).labelText primaryRoot = primaryRootLabel :=
    ((Mesh.remains_addRowMesh ..).labelText h.uncovered.primaryRoot_lt).trans h.rootLabel
  refine ⟨headers, ⟨h.uncovered.addRowMesh declared nodup, h.primary, h.secondary, ?_, ?_, root⟩,
    ?_, old⟩
  · refine Eq.trans (List.map_congr_left fun c mem => ?_) h.primaryNames
    exact old c (List.mem_append_left _ mem)
  · refine Eq.trans (List.map_congr_left fun c mem => ?_) h.secondaryNames
    exact old c (List.mem_append_right _ mem)
  · rw [← labels]
    exact List.map_congr_left fun c mem => old c (declared c mem)

/-- A matrix stands for the problem that it was built for, its columns given by their headers. -/
theorem Built.founded {q : Problem String} (built : Built m q) :
    ∃ p, m.Founded p ∧ p.map m.mesh.labelText = q := by
  induction built with
  | ofColumns made => exact founded_ofColumns made
  | @addRow m m' q name columns _ added ih =>
    obtain ⟨p, founded, rfl⟩ := ih
    obtain ⟨headers, founded', labels, old⟩ := founded.addRow added
    refine ⟨_, founded', ?_⟩
    have primary : p.primary.map m'.mesh.labelText = p.primary.map m.mesh.labelText :=
      List.map_congr_left fun c mem => old c (List.mem_append_left _ mem)
    have secondary : p.secondary.map m'.mesh.labelText = p.secondary.map m.mesh.labelText :=
      List.map_congr_left fun c mem => old c (List.mem_append_right _ mem)
    have rows : p.choices.map (Choice.map m'.mesh.labelText)
        = p.choices.map (Choice.map m.mesh.labelText) :=
      List.map_congr_left fun r hr => congrArg (Choice.mk r.number r.name)
        (List.map_congr_left fun c mem =>
          old c ((founded.uncovered.holds.rows r hr).declared c mem))
    simp only [Problem.map, Problem.add, List.map_append, rows, List.map_cons, List.map_nil,
      Choice.map, labels, primary, secondary]

/-! ## A matrix that was built -/

/-- The columns of the sample. -/
def sampleColumns : Matrix := ⟨headerMesh ["A", "B"] ["X"], ["A", "B"], ["X"], by decide⟩

/-- A matrix with a secondary column, and with two rows of the same name. -/
def sample : Matrix :=
  { sampleColumns with
    mesh := addRowMesh (addRowMesh (addRowMesh sampleColumns.mesh "p" [2, 4]) "q" [3]) "p" [2] }

/-- The problem that the sample was built for. -/
def sampleProblem : Problem String :=
  ⟨["A", "B"], ["X"], [⟨5, "p", ["A", "X"]⟩, ⟨8, "q", ["B"]⟩, ⟨10, "p", ["A"]⟩]⟩

theorem built_sample : Built sample sampleProblem :=
  have one : Built { sampleColumns with mesh := addRowMesh sampleColumns.mesh "p" [2, 4] }
      ⟨["A", "B"], ["X"], [⟨5, "p", ["A", "X"]⟩]⟩ :=
    .addRow (m := sampleColumns) (.ofColumns rfl) rfl
  have two : Built
      { sampleColumns with mesh := addRowMesh (addRowMesh sampleColumns.mesh "p" [2, 4]) "q" [3] }
      ⟨["A", "B"], ["X"], [⟨5, "p", ["A", "X"]⟩, ⟨8, "q", ["B"]⟩]⟩ := .addRow one rfl
  .addRow two rfl

end Matrix

end DancingLinks
