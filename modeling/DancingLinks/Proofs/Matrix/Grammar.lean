import DancingLinks.Proofs.Matrix.Depiction
import DancingLinks.Proofs.Matrix.Furnished
import DancingLinks.Proofs.Matrix.Lines
import DancingLinks.Proofs.Text.Grammar

/-!
# The grammar of the text form

Which lines describe which columns and rows, said by how lines are put together (`Describes`). The two
kinds of lines differ in the `Reading` of a row: its words are the names of the columns that it uses
(`Lists`), or numbers, one for each column (`Flags`).

The lines that become a matrix are those that describe one, the matrix has the columns and the rows that
they describe, and all other lines are bad input (`accepts_text_forms`).
-/

namespace DancingLinks

open DancingLinks.Text (CutsInto Splits Trims)

namespace Matrix

variable {m : Matrix} {header line name : String} {index : Nat}
  {primary secondary columns values uses names lines : List String}
  {rows : List (String × List String)}

/-! ## Lines -/

/-- The header declares some columns: the primary ones, and after the first bar the secondary ones. -/
inductive HeaderLine (header : String) : (primary secondary : List String) → Prop
  | both {before after : String} {primary secondary : List String} :
      CutsInto header columnSeparator before after → Splits before primary → Splits after secondary →
      HeaderLine header primary secondary
  | primary {primary : List String} :
      columnSeparator ∉ header.toList → Splits header primary → HeaderLine header primary []

/-- The line of a row has a name, which stands before the first colon, and some words. Without a colon
the row is named after the number of its line. -/
inductive RowLine (index : Nat) (line : String) : (name : String) → (values : List String) → Prop
  | named {before after name : String} {values : List String} :
      CutsInto line nameSeparator before after → Trims before name → Splits after values →
      RowLine index line name values
  | numbered {values : List String} :
      nameSeparator ∉ line.toList → Splits line values → RowLine index line s!"R{index}" values

/-- How the words of a row tell which columns it uses, all columns given. -/
abbrev Reading := (columns values uses : List String) → Prop

/-- The words are the names of the columns, none of them twice. -/
def Lists : Reading := fun columns values uses =>
  uses = values ∧ values.Nodup ∧ ∀ name ∈ values, name ∈ columns

/-- The words are integers, one for each column and none below zero. The columns with a positive one
are used. -/
def Flags : Reading := fun columns values uses => ∃ numbers : List Nat,
  List.Forall₂ (fun (value : String) (n : Nat) => Text.Integer.Numeral value n) values numbers ∧
    numbers.length = columns.length ∧
    uses = ((columns.zip numbers).filter (0 < ·.2)).map Prod.fst

/-- The lines describe columns with different names, and rows by their names and columns. Blank lines do
not count, and neither a header nor a row may be missing. -/
def Describes (reading : Reading) (lines primary secondary : List String)
    (rows : List (String × List String)) : Prop :=
  ∃ header body, lines.filter (!Text.isBlankText ·) = header :: body ∧ body ≠ [] ∧
    HeaderLine header primary secondary ∧ (primary ++ secondary).Nodup ∧
    List.Forall₂ (fun line row => ∃ values, RowLine line.2 line.1 row.1 values ∧
      reading (primary ++ secondary) values row.2) (body.zipIdx 1) rows

/-! ## Reading lines -/

/-- The columns of a header are those that it declares. -/
theorem headerLine_iff :
    HeaderLine header primary secondary ↔ columnNames header = (primary, secondary) := by
  constructor
  · rintro (⟨cuts, first, second⟩ | ⟨free, first⟩)
    · simp only [columnNames, cuts.cut_eq, Text.splits_iff.1 first, Text.splits_iff.1 second,
        Option.map_some, Option.getD_some]
    · simp only [columnNames, Text.cut_of_not_mem free, Text.splits_iff.1 first, Option.map_none,
        Option.getD_none]
  · intro read
    rcases Text.cut_cases header columnSeparator with free | ⟨before, after, cuts⟩
    · simp only [columnNames, Text.cut_of_not_mem free, Option.map_none, Option.getD_none,
        Prod.mk.injEq] at read
      obtain ⟨first, rfl⟩ := read
      exact .primary free (Text.splits_iff.2 first)
    · simp only [columnNames, cuts.cut_eq, Option.map_some, Option.getD_some, Prod.mk.injEq] at read
      exact .both cuts (Text.splits_iff.2 read.1) (Text.splits_iff.2 read.2)

/-- The name and the words of a row are those that its line has. -/
theorem rowLine_iff :
    RowLine index line name values ↔ rowName index line = name ∧ rowValues line = values := by
  constructor
  · rintro (⟨cuts, trims, splits⟩ | ⟨free, splits⟩)
    · simp only [rowName, rowValues, cuts.cut_eq]
      exact ⟨Text.trims_iff.1 trims, Text.splits_iff.1 splits⟩
    · simp only [rowName, rowValues, Text.cut_of_not_mem free]
      exact ⟨rfl, Text.splits_iff.1 splits⟩
  · rintro ⟨rfl, rfl⟩
    rcases Text.cut_cases line nameSeparator with free | ⟨before, after, cuts⟩
    · simp only [rowName, rowValues, Text.cut_of_not_mem free]
      exact .numbered free (Text.splits_iff.2 rfl)
    · simp only [rowName, rowValues, cuts.cut_eq]
      exact .named cuts (Text.trims_iff.2 rfl) (Text.splits_iff.2 rfl)

/-! ## Reading rows -/

/-- What the first number of a row says is put before what the others say. -/
theorem flags_cons {value : String} : Flags (name :: columns) (value :: values) uses ↔
    ∃ (n : Nat) (rest : List String), Text.Integer.Numeral value n ∧ Flags columns values rest ∧
      uses = if 0 < n then name :: rest else rest := by
  have used : ∀ (n : Nat) (numbers : List Nat),
      (((name :: columns).zip (n :: numbers)).filter (0 < ·.2)).map Prod.fst
        = if 0 < n then name :: ((columns.zip numbers).filter (0 < ·.2)).map Prod.fst
          else ((columns.zip numbers).filter (0 < ·.2)).map Prod.fst := by
    intro n numbers
    by_cases positive : 0 < n
    · rw [if_pos positive, List.zip_cons_cons, List.filter_cons_of_pos (by simpa using positive),
        List.map_cons]
    · rw [if_neg positive, List.zip_cons_cons, List.filter_cons_of_neg (by simpa using positive)]
  constructor
  · rintro ⟨numbers, numerals, length, rfl⟩
    cases numerals with
    | @cons _ n _ numbers numeral numerals =>
      exact ⟨n, _, numeral, ⟨numbers, numerals, Nat.succ.inj length, rfl⟩, used n numbers⟩
  · rintro ⟨n, rest, numeral, ⟨numbers, numerals, length, rfl⟩, rfl⟩
    exact ⟨n :: numbers, .cons numeral numerals, congrArg Nat.succ length, (used n numbers).symm⟩

/-- The first number of a row is read before the others. -/
theorem positiveColumns_cons {value : String} :
    positiveColumns (value :: values) (name :: columns) = .ok uses ↔
      ∃ (n : Nat) (rest : List String), Text.Integer.Numeral value n ∧
        positiveColumns values columns = .ok rest ∧ uses = if 0 < n then name :: rest else rest := by
  constructor
  · intro found
    rw [positiveColumns] at found
    split at found
    · cases found
    · next n read =>
      split at found
      · cases found
      · next nonneg =>
        obtain ⟨rest, others, made⟩ := ok_of_bind found
        cases made
        obtain ⟨k, rfl⟩ := Int.eq_ofNat_of_zero_le (Int.not_lt.1 nonneg)
        exact ⟨k, rest, Text.Integer.read_eq_ok_iff.1 read, others, by simp⟩
  · rintro ⟨n, rest, numeral, others, rfl⟩
    simp only [positiveColumns, Text.Integer.read_eq_ok_iff.2 numeral,
      Int.not_lt.2 (Int.natCast_nonneg n), if_false, others, bind, Except.bind, pure,
      Except.pure, Int.natCast_pos]

/-- The numbers of a row are read one by one. -/
theorem positiveColumns_eq_ok_iff (length : values.length = columns.length) :
    positiveColumns values columns = .ok uses ↔ Flags columns values uses := by
  induction values generalizing columns uses with
  | nil =>
    obtain rfl := List.length_eq_zero_iff.1 length.symm
    constructor
    · rintro ⟨⟩
      exact ⟨[], .nil, rfl, rfl⟩
    · rintro ⟨numbers, -, none, rfl⟩
      rfl
  | cons value values ih =>
    cases columns with
    | nil => cases length
    | cons name columns =>
      rw [positiveColumns_cons, flags_cons]
      simp only [ih (Nat.succ.inj length)]

/-- A row of numbers has one for each column. -/
theorem flaggedColumns_eq_ok_iff :
    flaggedColumns values columns = .ok uses ↔ Flags columns values uses := by
  unfold flaggedColumns
  split
  · next differ =>
    refine iff_of_false nofun ?_
    rintro ⟨numbers, numerals, length, -⟩
    exact differ (numerals.length_eq.trans length)
  · next same => exact positiveColumns_eq_ok_iff (not_not.1 same)

/-- A row of numbers uses columns that were declared, in their order. -/
theorem Flags.sublist (flags : Flags columns values uses) : uses.Sublist columns := by
  obtain ⟨numbers, -, length, rfl⟩ := flags
  calc (((columns.zip numbers).filter (0 < ·.2)).map Prod.fst).Sublist
        ((columns.zip numbers).map Prod.fst) := List.filter_sublist.map Prod.fst
    _ = columns := List.map_fst_zip (Nat.le_of_eq length.symm)

/-- Numbers that are not read are bad input, -/
theorem kind_of_positiveColumns {fault : Fault}
    (refused : positiveColumns values columns = .error fault) : fault.kind = .configuration := by
  induction values generalizing columns with
  | nil => cases refused
  | cons value values ih =>
    cases columns with
    | nil => cases refused
    | cons name columns =>
      rw [positiveColumns] at refused
      split at refused
      · cases refused
        rfl
      · split at refused
        · cases refused
          rfl
        · rcases error_of_bind refused with refused | ⟨used, -, ended⟩
          · exact ih refused
          · cases ended

/-- and so is another number of them. -/
theorem kind_of_flaggedColumns {fault : Fault}
    (refused : flaggedColumns values columns = .error fault) : fault.kind = .configuration := by
  unfold flaggedColumns at refused
  split at refused
  · cases refused
    rfl
  · exact kind_of_positiveColumns refused

/-- What is found for the words of a row is what they tell, and what is not found is bad input. -/
structure Reads (columnsOf : List String → String → Except Fault (List String)) (reading : Reading) :
    Prop where
  found : ∀ {columns line uses}, columns.Nodup →
    (reading columns (rowValues line) uses ↔
      columnsOf columns line = .ok uses ∧ (∀ name ∈ uses, name ∈ columns) ∧ uses.Nodup)
  refuses : ∀ {columns line fault}, columnsOf columns line = .error fault →
    fault.kind = .configuration

theorem reads_lists : Reads (fun _ line => .ok (rowValues line)) Lists where
  found := by
    intro columns line uses _
    constructor
    · rintro ⟨rfl, nodup, declared⟩
      exact ⟨rfl, declared, nodup⟩
    · rintro ⟨found, declared, nodup⟩
      cases found
      exact ⟨rfl, nodup, declared⟩
  refuses := nofun

theorem reads_flags : Reads (fun columns line => flaggedColumns (rowValues line) columns) Flags where
  found := by
    intro columns line uses distinct
    rw [flaggedColumns_eq_ok_iff, iff_self_and]
    exact fun flags => ⟨fun name mem => flags.sublist.subset mem, flags.sublist.nodup distinct⟩
  refuses := kind_of_flaggedColumns

variable {columnsOf : List String → String → Except Fault (List String)} {reading : Reading}

/-- The rows that lines describe are those that are found for them. -/
theorem Reads.rows_iff (reads : Reads columnsOf reading) (distinct : columns.Nodup) :
    List.Forall₂ (fun line row => ∃ values, RowLine line.2 line.1 row.1 values ∧
        reading columns values row.2) (lines.zipIdx index) rows ↔
      DescribeRows (columnsOf columns) (usedColumns (columnsOf columns)) columns lines ∧
        rows = lineContents (usedColumns (columnsOf columns)) index lines := by
  -- Rows are named after the numbers of their lines, so the induction is for all first numbers.
  induction lines generalizing index rows with
  | nil =>
    rw [List.zipIdx_nil, List.forall₂_nil_left_iff]
    exact ⟨fun none => ⟨⟨nofun, nofun, nofun⟩, none⟩, And.right⟩
  | cons line lines ih =>
    rw [List.zipIdx_cons, List.forall₂_cons_left_iff]
    constructor
    · rintro ⟨⟨name, uses⟩, rows, ⟨values, parts, reading⟩, others, rfl⟩
      obtain ⟨rfl, rfl⟩ := rowLine_iff.1 parts
      obtain ⟨found, declared, nodup⟩ := (reads.found distinct).1 reading
      obtain ⟨rest, rfl⟩ := ih.1 others
      have used : usedColumns (columnsOf columns) line = uses := usedColumns_eq found
      refine ⟨describeRows_cons.2 ⟨used.symm ▸ ⟨found, declared, nodup⟩, rest⟩, ?_⟩
      rw [← used]
      rfl
    · rintro ⟨describe, rfl⟩
      obtain ⟨row, rest⟩ := describeRows_cons.1 describe
      exact ⟨_, _, ⟨_, rowLine_iff.2 ⟨rfl, rfl⟩, (reads.found distinct).2 row⟩, ih.2 ⟨rest, rfl⟩, rfl⟩

/-- The columns that the header of some lines declares. -/
def declaredColumns (lines : List String) : List String :=
  let (primary, secondary) := columnNames ((lines.find? (!Text.isBlankText ·)).getD "")
  primary ++ secondary

theorem declaredColumns_eq {body : List String}
    (solid : lines.filter (!Text.isBlankText ·) = header :: body)
    (names : columnNames header = (primary, secondary)) :
    declaredColumns lines = primary ++ secondary := by
  have first : lines.find? (!Text.isBlankText ·) = some header := by
    rw [← List.head?_filter, solid, List.head?_cons]
  simp only [declaredColumns, first, Option.getD_some, names]

/-- Lines that describe columns and rows become a matrix that was built for these. -/
theorem Reads.exists_built (reads : Reads columnsOf reading)
    (describes : Describes reading lines primary secondary rows) :
    ∃ m choices, ofLines (columnsOf (declaredColumns lines)) lines = .ok m ∧
      Built m ⟨primary, secondary, choices⟩ ∧ choices.map Choice.content = rows := by
  obtain ⟨header, body, solid, any, heads, distinct, each⟩ := describes
  have names := headerLine_iff.1 heads
  obtain ⟨describe, rfl⟩ := (reads.rows_iff distinct).1 each
  rw [declaredColumns_eq solid names]
  exact ofLines_ok solid any names distinct describe

/-- Lines that become a matrix describe something. -/
theorem Reads.describes (reads : Reads columnsOf reading)
    (made : ofLines (columnsOf (declaredColumns lines)) lines = .ok m) :
    ∃ primary secondary rows, Describes reading lines primary secondary rows := by
  obtain ⟨header, body, -, solid, any, distinct, describe, -⟩ := of_ofLines made
  rcases names : columnNames header with ⟨primary, secondary⟩
  rw [names] at distinct describe
  rw [declaredColumns_eq solid names] at describe
  exact ⟨primary, secondary, _, header, body, solid, any, headerLine_iff.2 names, distinct,
    (reads.rows_iff distinct).2 ⟨describe, rfl⟩⟩

/-! ## The matrix that is described -/

/-- The matrix has just these columns and these rows, in this order. -/
structure Contains (m : Matrix) (primary secondary : List String)
    (rows : List (String × List String)) : Prop where
  declared : m.primary = primary ∧ m.secondary = secondary
  primaryColumns : ∃ headers, m.primaryColumns = .ok headers ∧
    headers.map m.mesh.labelText = primary
  secondaryColumns : ∃ headers, m.secondaryColumns = .ok headers ∧
    headers.map m.mesh.labelText = secondary
  uncoveredRows : ∃ numbers, m.uncoveredRows = .ok numbers ∧
    List.Forall₂ (fun number row => m.HasRow number row.1 row.2) numbers rows
  /-- In a column are the rows that use it. -/
  entries : ∀ name ∈ primary ++ secondary, ∃ c nodes, m.column name = .ok c ∧
    m.nodesAfter .down c = .ok nodes ∧ m.mesh.count c = nodes.length ∧
    nodes.map (fun x => m.mesh.labelText (m.mesh.rowHeader.get x))
      = (rows.filter (name ∈ ·.2)).map Prod.fst

/-- The column of a name holds the nodes of the rows that use it. -/
theorem Depicts.map_entries {q : Problem String} (depicts : m.Depicts q []) (declares : q.Declares)
    (mem : name ∈ q.columns) :
    (q.numbered.entries (q.header name)).map (fun x => m.mesh.labelText (m.mesh.rowHeader.get x))
      = (q.choices.filter (name ∈ ·.columns)).map Choice.name := by
  have header : ∀ other ∈ q.columns, q.header other = q.header name → other = name := by
    intro other declared same
    rw [← (depicts.header other declared).2, same, (depicts.header name mem).2]
  have uses : ∀ r ∈ q.choices,
      ((fun r : Choice Nat => decide (q.header name ∈ r.columns)) ∘ Choice.map q.header) r
        = decide (name ∈ r.columns) := by
    intro r hr
    rw [Function.comp_apply, decide_eq_decide, Choice.map, List.mem_map]
    constructor
    · rintro ⟨other, used, same⟩
      exact header other (declares r hr other used) same ▸ used
    · exact fun used => ⟨name, used, rfl⟩
  rw [Problem.entries, Problem.numbered, Problem.map, List.filter_map, List.map_map, List.map_map,
    List.filter_congr uses]
  refine List.map_congr_left fun r hr => ?_
  obtain ⟨hr, used⟩ := List.mem_filter.1 hr
  have node := depicts.node (r.map q.header) (List.mem_map_of_mem hr) (q.header name)
    (List.mem_map_of_mem (of_decide_eq_true used))
  rw [Function.comp_apply, Function.comp_apply, node.1]
  exact depicts.rowName r hr

/-- A matrix that was built for a problem has its columns and rows. -/
theorem Built.contains {q : Problem String} (built : Built m q) :
    m.Contains q.primary q.secondary (q.choices.map Choice.content) := by
  obtain ⟨stands, names⟩ := built.stands_numbered .start
  have depicts := stands.depicts names
  have furnished := built.furnished
  have labels : ∀ {ns : List String}, (∀ name ∈ ns, name ∈ q.columns) →
      (ns.map q.header).map m.mesh.labelText = ns := by
    intro ns declared
    rw [List.map_map]
    exact (List.map_congr_left fun name mem => (depicts.header name (declared name mem)).2).trans
      (List.map_id _)
  -- No column is covered, so the picture is that of the whole problem.
  have left : ∀ name ∈ q.columns, q.header name ∈ (q.numbered.without []).columns := by
    intro name mem
    rw [Problem.without_nil, Problem.numbered, Problem.columns_map]
    exact List.mem_map_of_mem mem
  have primaryColumns := depicts.primaryColumns
  have secondaryColumns := depicts.secondaryColumns
  have uncoveredRows := depicts.uncoveredRows
  rw [Problem.without_nil] at primaryColumns secondaryColumns uncoveredRows
  rw [Problem.numbered, Problem.map_number_map] at uncoveredRows
  refine
    { declared := built.columns_eq
      primaryColumns := ⟨_, primaryColumns, labels fun name => List.mem_append_left _⟩
      secondaryColumns := ⟨_, secondaryColumns, labels fun name => List.mem_append_right _⟩
      uncoveredRows := ⟨_, uncoveredRows, ?_⟩
      entries := fun name mem => ⟨_, _, (depicts.header name mem).1, depicts.down _ (left name mem),
        depicts.count _ (left name mem), ?_⟩ }
  · rw [List.forall₂_map_left_iff, List.forall₂_map_right_iff, List.forall₂_same]
    intro r hr
    refine furnished.hasRow (r := r.map q.header) (List.mem_map_of_mem hr)
      (mapM_ok fun name used => ?_)
    exact built.column_eq_ok_iff.2 ⟨built.declares r hr name used, rfl⟩
  · rw [Problem.without_nil, depicts.map_entries built.declares mem, List.filter_map, List.map_map]
    rfl

/-! ## What is accepted -/

/-- The lines that describe a matrix become it, and the others are bad input. -/
structure Accepts (build : List String → Except Fault Matrix) (reading : Reading) : Prop where
  accepts : ∀ lines, (∃ m, build lines = .ok m) ↔
    ∃ primary secondary rows, Describes reading lines primary secondary rows
  refuses : ∀ lines fault, build lines = .error fault → fault.kind = .configuration
  builds : ∀ lines m primary secondary rows, build lines = .ok m →
    Describes reading lines primary secondary rows → m.Contains primary secondary rows

/-- Lines are accepted as their rows are read. -/
theorem Reads.accepts (reads : Reads columnsOf reading) :
    Accepts (fun lines => ofLines (columnsOf (declaredColumns lines)) lines) reading where
  accepts lines := by
    constructor
    · rintro ⟨m, made⟩
      exact reads.describes made
    · rintro ⟨primary, secondary, rows, describes⟩
      obtain ⟨m, choices, made, -⟩ := reads.exists_built describes
      exact ⟨m, made⟩
  refuses lines fault refused := kind_of_ofLines (fun _ _ unread => reads.refuses unread) refused
  builds lines m primary secondary rows made describes := by
    obtain ⟨m', choices, made', built, rfl⟩ := reads.exists_built describes
    cases made.symm.trans made'
    exact built.contains

/-- Lines that list columns, and lines of numbers, become a matrix exactly when they describe one. It
has the columns and the rows that they describe, and all other lines are bad input. -/
theorem accepts_text_forms : Accepts ofConstraintLines Lists ∧ Accepts ofBooleanLines Flags :=
  ⟨reads_lists.accepts, reads_flags.accepts⟩

end Matrix

end DancingLinks
