import DancingLinks.Matrix.Encoding
import DancingLinks.Proofs.Matrix.Names

/-!
# Matrices from lines

Lines whose header declares different names, and whose rows list declared names without repeating
one, become a matrix (`ofLines_ok`). It is built for the problem with these columns and one choice
per row, in the order of the rows. No other lines become a matrix: whatever the lines of a matrix are,
it was built for what they say (`of_ofConstraintLines`).
-/

namespace DancingLinks

/-- What the line of a choice says: its name, and the columns that it uses. -/
def Choice.content {κ : Type} (r : Choice κ) : String × List κ := (r.name, r.columns)

namespace Matrix

variable {m : Matrix} {q : Problem String} {a b name row : String} {names columns : List String}
  {seen : List Nat} {c : Nat}

/-! ## Rows -/

/-- Different names have different headers. -/
theorem Built.column_inj (built : Built m q) (ha : m.column a = .ok c) (hb : m.column b = .ok c) :
    a = b := by
  obtain ⟨p, founded, -⟩ := built.founded
  exact (founded.named.of_column ha).2.symm.trans (founded.named.of_column hb).2

/-- Different declared names are resolved, as long as none of their headers was seen. -/
theorem Built.resolve_ok (built : Built m q) (declared : ∀ name ∈ names, name ∈ q.columns)
    (nodup : names.Nodup) (fresh : ∀ name ∈ names, ∀ c, m.column name = .ok c → c ∉ seen) :
    ∃ headers, m.resolve row seen names = .ok headers := by
  induction names generalizing seen with
  | nil => exact ⟨[], rfl⟩
  | cons name names ih =>
    obtain ⟨known, declared⟩ := List.forall_mem_cons.1 declared
    obtain ⟨new, nodup⟩ := List.nodup_cons.1 nodup
    have inMatrix : name ∈ m.primary ++ m.secondary := by
      rw [built.columns_eq.1, built.columns_eq.2]
      exact known
    obtain ⟨c, found⟩ : ∃ c, m.column name = .ok c := ⟨_, column_eq inMatrix⟩
    have unseen : c ∉ seen := fresh name List.mem_cons_self c found
    have rest : ∀ other ∈ names, ∀ d, m.column other = .ok d → d ∉ c :: seen := by
      intro other mem d isColumn there
      rcases List.mem_cons.1 there with rfl | there
      · exact new (built.column_inj found isColumn ▸ mem)
      · exact fresh other (List.mem_cons_of_mem _ mem) d isColumn there
    obtain ⟨headers, resolved⟩ := ih declared nodup rest
    refine ⟨c :: headers, ?_⟩
    simp only [resolve, found, bind, Except.bind, if_neg unseen, resolved]
    rfl

/-- A row that lists declared names, none of them twice, can be added. -/
theorem Built.addRow_ok (built : Built m q) (name : String)
    (declared : ∀ name ∈ columns, name ∈ q.columns) (nodup : columns.Nodup) :
    ∃ m' number, m.addRow name columns = .ok m' ∧ Built m' (q.add ⟨number, name, columns⟩) := by
  obtain ⟨headers, resolved⟩ : ∃ headers, m.resolve name [] columns = .ok headers :=
    built.resolve_ok declared nodup fun _ _ _ _ => List.not_mem_nil
  have added : m.addRow name columns
      = .ok { m with mesh := addRowMesh m.mesh name headers } := by
    rw [Matrix.addRow, resolved]
    rfl
  exact ⟨_, m.mesh.size, added, .addRow built added⟩

/-- A row is added exactly when it lists columns of the matrix, none of them twice. -/
theorem Built.addRow_ok_iff (built : Built m q) (name : String) (columns : List String) :
    (∃ m', m.addRow name columns = .ok m') ↔ (∀ c ∈ columns, c ∈ q.columns) ∧ columns.Nodup := by
  constructor
  · rintro ⟨m', added⟩
    have inLast : (⟨m.mesh.size, name, columns⟩ : Choice String) ∈
        q.choices ++ [⟨m.mesh.size, name, columns⟩] := by simp
    exact ⟨(Built.addRow built added).declares _ inLast,
      (Built.addRow built added).nodup_columns _ inLast⟩
  · rintro ⟨declared, nodup⟩
    obtain ⟨m', -, added, -⟩ := built.addRow_ok name declared nodup
    exact ⟨m', added⟩

/-- A name that is not declared is bad input, -/
theorem kind_of_column {fault : Fault} (unknown : m.column name = .error fault) :
    fault.kind = .configuration := by
  unfold column at unknown
  split at unknown
  · cases unknown
  · cases unknown
    rfl

/-- and so are names that are not resolved, -/
theorem kind_of_resolve {fault : Fault} (refused : m.resolve row seen names = .error fault) :
    fault.kind = .configuration := by
  induction names generalizing seen with
  | nil => cases refused
  | cons name names ih =>
    rcases error_of_bind refused with unknown | ⟨c, -, refused⟩
    · exact kind_of_column unknown
    · split at refused
      · cases refused
        rfl
      · rcases error_of_bind refused with refused | ⟨headers, -, ended⟩
        · exact ih refused
        · cases ended

/-- and a row that lists such names. -/
theorem kind_of_addRow {fault : Fault} (refused : m.addRow name columns = .error fault) :
    fault.kind = .configuration := by
  rcases error_of_bind refused with refused | ⟨headers, -, ended⟩
  · exact kind_of_resolve refused
  · cases ended

/-! ## Lines -/

/-- The choices that the lines of rows describe, when they are numbered from `index` on. -/
def lineContents (columns : String → List String) (index : Nat) (lines : List String) :
    List (String × List String) :=
  (lines.zipIdx index).map fun line => (rowName line.2 line.1, columns line.1)

/-- Lines whose names and columns do not depend on their numbers. -/
theorem lineContents_map {κ : Type} {candidates : List κ} {text name : κ → String}
    {columns : String → List String} {uses : κ → List String}
    (names : ∀ c ∈ candidates, ∀ i, rowName i (text c) = name c)
    (values : ∀ c ∈ candidates, columns (text c) = uses c) (index : Nat) :
    lineContents columns index (candidates.map text) = candidates.map fun c => (name c, uses c) := by
  induction candidates generalizing index with
  | nil => rfl
  | cons c candidates ih =>
    obtain ⟨first, names⟩ := List.forall_mem_cons.1 names
    obtain ⟨value, values⟩ := List.forall_mem_cons.1 values
    rw [List.map_cons, List.map_cons, ← ih names values (index + 1), ← first index, ← value]
    rfl

/-- The lines describe rows: they list declared columns, none of them twice. -/
structure DescribeRows (columnsOf : String → Except Fault (List String))
    (columns : String → List String) (declared : List String) (lines : List String) : Prop where
  found : ∀ line ∈ lines, columnsOf line = .ok (columns line)
  declared : ∀ line ∈ lines, ∀ name ∈ columns line, name ∈ declared
  nodup : ∀ line ∈ lines, (columns line).Nodup

variable {columnsOf : String → Except Fault (List String)} {columnsOn : String → List String}
  {lines : List String}

/-- The first of some lines describes a row, and the others do. -/
theorem describeRows_cons {line : String} {declared : List String} :
    DescribeRows columnsOf columnsOn declared (line :: lines) ↔
      (columnsOf line = .ok (columnsOn line) ∧ (∀ name ∈ columnsOn line, name ∈ declared) ∧
        (columnsOn line).Nodup) ∧ DescribeRows columnsOf columnsOn declared lines := by
  constructor
  · rintro ⟨found, declared, nodup⟩
    obtain ⟨found, others⟩ := List.forall_mem_cons.1 found
    obtain ⟨declared, restDeclared⟩ := List.forall_mem_cons.1 declared
    obtain ⟨nodup, restNodup⟩ := List.forall_mem_cons.1 nodup
    exact ⟨⟨found, declared, nodup⟩, others, restDeclared, restNodup⟩
  · rintro ⟨⟨found, declared, nodup⟩, rest⟩
    exact ⟨List.forall_mem_cons.2 ⟨found, rest.found⟩,
      List.forall_mem_cons.2 ⟨declared, rest.declared⟩, List.forall_mem_cons.2 ⟨nodup, rest.nodup⟩⟩

/-- Lines that describe rows add one choice each. -/
theorem Built.addLines_ok (built : Built m q) (index : Nat)
    (rows : DescribeRows columnsOf columnsOn q.columns lines) :
    ∃ m' choices, m.addLines columnsOf index lines = .ok m' ∧
      Built m' { q with choices := q.choices ++ choices } ∧
      choices.map Choice.content = lineContents columnsOn index lines := by
  induction lines generalizing m q index with
  | nil => exact ⟨m, [], rfl, by rwa [List.append_nil], rfl⟩
  | cons line lines ih =>
    obtain ⟨⟨found, declared, nodup⟩, others⟩ := describeRows_cons.1 rows
    obtain ⟨m₁, number, added, built₁⟩ := built.addRow_ok (rowName index line) declared nodup
    obtain ⟨m', choices, rest, built', contents⟩ := ih built₁ (index + 1) others
    refine ⟨m', ⟨number, rowName index line, columnsOn line⟩ :: choices, ?_, ?_, ?_⟩
    · simp only [addLines, found, bind, Except.bind, added]
      exact rest
    · simpa [Problem.add] using built'
    · rw [List.map_cons, contents]
      rfl

/-- A header gives the columns, and the other lines that are not blank add the rows. -/
theorem ofLines_eq {header : String} {rows : List String}
    (solid : lines.filter (!Text.isBlankText ·) = header :: rows) (any : rows ≠ []) :
    ofLines columnsOf lines = ofColumns (columnNames header).1 (columnNames header).2 >>= fun empty =>
      empty.addLines columnsOf 1 rows := by
  unfold ofLines
  rw [solid]
  cases rows with
  | nil => exact absurd rfl any
  | cons row rows => rfl

/-- A header and rows become a matrix. -/
theorem ofLines_ok {header : String} {primary secondary rows : List String}
    (solid : lines.filter (!Text.isBlankText ·) = header :: rows) (any : rows ≠ [])
    (names : columnNames header = (primary, secondary)) (distinct : (primary ++ secondary).Nodup)
    (describe : DescribeRows columnsOf columnsOn (primary ++ secondary) rows) :
    ∃ m choices, ofLines columnsOf lines = .ok m ∧ Built m ⟨primary, secondary, choices⟩ ∧
      choices.map Choice.content = lineContents columnsOn 1 rows := by
  obtain ⟨empty, made⟩ : ∃ empty, ofColumns primary secondary = .ok empty := by
    unfold ofColumns
    split
    · next repeated => rw [firstRepeated_eq_none_iff.2 distinct] at repeated; cases repeated
    · exact ⟨_, rfl⟩
  obtain ⟨m, choices, added, built, contents⟩ := (Built.ofColumns made).addLines_ok 1 describe
  refine ⟨m, choices, ?_, built, contents⟩
  rw [ofLines_eq solid any, names, made]
  exact added

/-! ## Lines that were accepted -/

/-- The columns that lines list are those of the choices that they describe. -/
theorem columns_of_contents {choices : List (Choice String)} {index : Nat}
    (contents : choices.map Choice.content = lineContents columnsOn index lines) :
    choices.map Choice.columns = lines.map columnsOn := by
  have columns := congrArg (List.map Prod.snd) contents
  rw [lineContents, List.map_map, List.map_map] at columns
  calc choices.map Choice.columns = (lines.zipIdx index).map (columnsOn ∘ Prod.fst) := columns
    _ = lines.map columnsOn := by rw [← List.map_map, List.zipIdx_map_fst]

/-- The columns that are found for a line. -/
def usedColumns (columnsOf : String → Except Fault (List String)) (line : String) : List String :=
  (columnsOf line).toOption.getD []

theorem usedColumns_eq {line : String} (found : columnsOf line = .ok columns) :
    usedColumns columnsOf line = columns := by
  rw [usedColumns, found]
  rfl

/-- Lines that were added describe rows, and are one choice each. -/
theorem Built.of_addLines (built : Built m q) {index : Nat} {m' : Matrix}
    (added : m.addLines columnsOf index lines = .ok m') :
    DescribeRows columnsOf (usedColumns columnsOf) q.columns lines ∧
      ∃ choices, Built m' { q with choices := q.choices ++ choices } ∧
        choices.map Choice.content = lineContents (usedColumns columnsOf) index lines := by
  induction lines generalizing m q index with
  | nil =>
    cases added
    exact ⟨⟨nofun, nofun, nofun⟩, [], by rwa [List.append_nil], rfl⟩
  | cons line lines ih =>
    obtain ⟨columns, found, added⟩ := ok_of_bind added
    obtain ⟨m₁, row, added⟩ := ok_of_bind added
    have used := usedColumns_eq found
    obtain ⟨declared, nodup⟩ := (built.addRow_ok_iff (rowName index line) columns).1 ⟨m₁, row⟩
    obtain ⟨rest, choices, built', contents⟩ := ih (built.addRow row) added
    refine ⟨describeRows_cons.2 ⟨used.symm ▸ ⟨found, declared, nodup⟩, rest⟩,
      ⟨m.mesh.size, rowName index line, columns⟩ :: choices, by simpa using built', ?_⟩
    rw [List.map_cons, contents, ← used]
    rfl

/-- A matrix that lines became was built for what the lines say. -/
theorem of_ofLines (made : ofLines columnsOf lines = .ok m) :
    ∃ header rows choices, lines.filter (!Text.isBlankText ·) = header :: rows ∧ rows ≠ [] ∧
      ((columnNames header).1 ++ (columnNames header).2).Nodup ∧
      DescribeRows columnsOf (usedColumns columnsOf)
        ((columnNames header).1 ++ (columnNames header).2) rows ∧
      Built m ⟨(columnNames header).1, (columnNames header).2, choices⟩ ∧
      choices.map Choice.content = lineContents (usedColumns columnsOf) 1 rows := by
  unfold ofLines at made
  split at made
  · next header row rows solid =>
    obtain ⟨empty, columns, added⟩ := ok_of_bind made
    have built := Built.ofColumns columns
    obtain ⟨describe, choices, built', contents⟩ := built.of_addLines added
    have distinct := empty.distinct
    rw [built.columns_eq.1, built.columns_eq.2] at distinct
    exact ⟨header, row :: rows, choices, solid, List.cons_ne_nil _ _, distinct, describe, built',
      contents⟩
  · cases made

/-- Lines that are not added are bad input, as long as those are whose columns are not found. -/
theorem kind_of_addLines {index : Nat} {fault : Fault}
    (unread : ∀ line fault, columnsOf line = .error fault → fault.kind = .configuration)
    (refused : m.addLines columnsOf index lines = .error fault) : fault.kind = .configuration := by
  induction lines generalizing m index with
  | nil => cases refused
  | cons line lines ih =>
    rcases error_of_bind refused with missing | ⟨columns, -, refused⟩
    · exact unread line fault missing
    · rcases error_of_bind refused with refused | ⟨m', -, refused⟩
      · exact kind_of_addRow refused
      · exact ih refused

/-- Lines that become no matrix are bad input, as long as those are whose columns are not found. -/
theorem kind_of_ofLines {fault : Fault}
    (unread : ∀ line fault, columnsOf line = .error fault → fault.kind = .configuration)
    (refused : ofLines columnsOf lines = .error fault) : fault.kind = .configuration := by
  unfold ofLines at refused
  split at refused
  · rcases error_of_bind refused with repeated | ⟨empty, -, refused⟩
    · unfold ofColumns at repeated
      split at repeated
      · cases repeated
        rfl
      · cases repeated
    · exact kind_of_addLines unread refused
  · cases refused
    rfl

/-- A matrix that lines became was built for what the lines list. -/
theorem of_ofConstraintLines (made : ofConstraintLines lines = .ok m) :
    ∃ header rows choices, lines.filter (!Text.isBlankText ·) = header :: rows ∧
      Built m ⟨(columnNames header).1, (columnNames header).2, choices⟩ ∧
      choices.map Choice.content = lineContents rowValues 1 rows := by
  obtain ⟨header, rows, choices, solid, -, -, -, built, contents⟩ := of_ofLines made
  exact ⟨header, rows, choices, solid, built, contents⟩

end Matrix

end DancingLinks
