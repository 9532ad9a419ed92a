import DancingLinks.Proofs.Matrix.Attempts
import DancingLinks.Proofs.Matrix.Furnished
import DancingLinks.Proofs.Search.Solve
import DancingLinks.Search.Requests

/-!
# Requests keep the nodes

Columns may be covered and uncovered in any order, rows added while columns are covered, and searches
broken off. That can leave the rings and the counts wrong for good. But it never changes the label or a
header of a node, and a row is met from its header in the order in which it was given
(`serveAll_keeps_nodes`). So the names that a solution gives stay the same, whatever is done to the
matrix after it was found.

A matrix is furnished at any time (`Matrix.Furnished`), and so it is after any step of a search, whatever
came of the step (`Search.Secures`). What a search records is made of rows of the matrix, since it goes
down columns and along rows only.
-/

namespace DancingLinks

open DancingLinks.Matrix (ofColumns)

variable {α β : Type} {o : Options} {p : Problem Nat} {m m' start : Matrix} {event : Event}
  {c : Nat} {name : String} {columns : List String} {earlier later : List Request}

/-! ## Searches -/

/-- The number is that of an entry of a row. -/
def Problem.IsEntry (p : Problem Nat) (x : Nat) : Prop :=
  ∃ r ∈ p.choices, ∃ c ∈ r.columns, x = r.node c

/-- The rows of the solution are rows of the problem, each from one of its entries on. -/
def Solution.IsOf (s : Solution) (p : Problem Nat) : Prop :=
  ∀ row ∈ s.rows, ∃ r ∈ p.choices, ∃ c ∈ r.columns, row = r.nodesFrom c

/-- A search on `m` goes on: its nodes are still there, and what was found is made of rows. -/
structure Run.Sound (m : Matrix) (p : Problem Nat) (run : Run) : Prop where
  furnished : run.matrix.Furnished p
  remains : m.Remains run.matrix
  found : ∀ s ∈ run.found, s.IsOf p

namespace Search

/-- A step keeps a run sound whatever comes of it, and a value that it ends with has a property. -/
def Secures (m : Matrix) (p : Problem Nat) (step : Search α) (good : α → Prop) : Prop :=
  ∀ run : Run, run.Sound m p → (step run).2.Sound m p ∧ ∀ a, (step run).1 = .ok a → good a

variable {good : α → Prop} {good' : β → Prop}

theorem secures_pure {a : α} (h : good a) : Secures m p (pure a) good := fun _ sound =>
  ⟨sound, fun _ ended => Except.ok.inj ended ▸ h⟩

theorem secures_fail (fault : Fault) : Secures m p (fail fault) good := fun _ sound =>
  ⟨sound, nofun⟩

/-- A question about a furnished matrix. -/
theorem secures_ask {question : Matrix → Except Fault α}
    (answer : ∀ m', m'.Furnished p → ∀ a, question m' = .ok a → good a) :
    Secures m p (ask question) good := fun run sound =>
  ⟨sound, answer run.matrix sound.furnished⟩

theorem secures_look (question : Matrix → Except Fault α) :
    Secures m p (ask question) fun _ => True := secures_ask fun _ _ _ _ => trivial

theorem secures_send (event : Event) : Secures m p (send o event) fun _ => True := by
  intro run sound
  refine ⟨?_, fun _ _ => trivial⟩
  unfold send
  split
  · exact sound
  · exact ⟨sound.furnished, sound.remains, sound.found⟩

theorem secures_limitReached : Secures m p (limitReached o) fun _ => True := fun _ sound =>
  ⟨sound, fun _ _ => trivial⟩

theorem secures_record {solution : Solution} (rows : solution.IsOf p) :
    Secures m p (record solution) fun _ => True := by
  refine fun run sound => ⟨⟨sound.furnished, sound.remains, fun s mem => ?_⟩, fun _ _ => trivial⟩
  rcases Array.mem_push.1 mem with old | rfl
  · exact sound.found s old
  · exact rows

/-- Steps one after the other. -/
theorem Secures.bind {step : Search α} {next : α → Search β} (first : Secures m p step good)
    (rest : ∀ a, good a → Secures m p (next a) good') : Secures m p (step >>= next) good' := by
  intro run sound
  obtain ⟨sound, value⟩ := first run sound
  rw [bind_apply]
  generalize step run = ran at sound value ⊢
  obtain ⟨result, after⟩ := ran
  cases result with
  | error fault => exact ⟨sound, nofun⟩
  | ok a => exact rest a (value a rfl) after sound

/-- A cleanup after a step. -/
theorem Secures.ensuring {step : Search α} {cleanup : Search Unit} (inner : Secures m p step good)
    (last : Secures m p cleanup fun _ => True) : Secures m p (ensuring step cleanup) good := by
  intro run sound
  obtain ⟨sound, value⟩ := inner run sound
  unfold Search.ensuring
  generalize step run = ran at sound value ⊢
  obtain ⟨result, after⟩ := ran
  obtain ⟨sound, -⟩ := last after sound
  dsimp only
  generalize cleanup after = cleaned at sound ⊢
  obtain ⟨answer, after'⟩ := cleaned
  cases answer with
  | error fault => exact ⟨sound, nofun⟩
  | ok => exact ⟨sound, value⟩

/-- Only a column can be covered. -/
theorem secures_cover (c : Nat) : Secures m p (cover c) fun _ => c ∈ p.columns := by
  intro run sound
  unfold cover
  split
  · next nodes plan =>
    have mem := sound.furnished.named.isColumn_iff.1 (Matrix.isColumn_of_coverPlan plan)
    obtain ⟨furnished, remains⟩ := sound.furnished.hide mem nodes
    exact ⟨⟨furnished, sound.remains.trans remains, sound.found⟩, fun _ _ => mem⟩
  · exact ⟨sound, nofun⟩

theorem secures_uncover (c : Nat) : Secures m p (uncover c) fun _ => True := by
  intro run sound
  refine ⟨?_, fun _ _ => trivial⟩
  unfold uncover
  split
  · next nodes plan =>
    have mem := sound.furnished.named.isColumn_iff.1 (Matrix.isColumn_of_uncoverPlan plan)
    obtain ⟨furnished, remains⟩ := sound.furnished.reveal mem nodes
    exact ⟨furnished, sound.remains.trans remains, sound.found⟩
  · exact sound

theorem secures_uncoverEach (columns : List Nat) :
    Secures m p (uncoverEach columns) fun _ => True := by
  induction columns with
  | nil => exact secures_pure trivial
  | cons c columns ih => exact (secures_uncover c).bind fun _ _ => ih

theorem secures_coverEach (covered columns : List Nat) :
    Secures m p (coverEach covered columns) fun _ => True := by
  refine fun run sound => ⟨?_, fun _ _ => trivial⟩
  induction columns generalizing covered run with
  | nil => exact sound
  | cons c columns ih =>
    have next := (secures_cover c run sound).1
    unfold coverEach
    split
    · next ran => exact ih _ _ (by rw [ran] at next; exact next)
    · next ran =>
      rw [ran] at next
      exact next

/-! ## Levels -/

/-- What is met down a column are entries of rows. -/
theorem isEntry_of_nodesAfter {entries : List Nat} (furnished : m.Furnished p) (mem : c ∈ p.columns)
    (met : m.nodesAfter .down c = .ok entries) : ∀ x ∈ entries, p.IsEntry x := by
  unfold Matrix.nodesAfter at met
  split at met
  · next nodes found =>
    cases met
    obtain ⟨lt, -, header⟩ := furnished.framed.columns c mem
    intro x there
    obtain ⟨⟨inside, same⟩, ne⟩ := furnished.framed.confined.of_nodesAfter_down lt found x there
    obtain ⟨r, hr, hc, rfl⟩ := furnished.framed.exists_entry mem inside (same.trans header) ne
    exact ⟨r, hr, c, hc, rfl⟩
  · cases met

/-- What entries capture is made of their rows. -/
theorem isOf_capture {progress : List Nat} {solution : Solution} (furnished : m.Furnished p)
    (entries : ∀ x ∈ progress, p.IsEntry x) (captured : m.capture progress = .ok solution) :
    solution.IsOf p := by
  obtain ⟨rows, made, done⟩ := ok_of_bind captured
  cases done
  intro row mem
  obtain ⟨x, hx, here⟩ := exists_of_mem_mapM made mem
  obtain ⟨r, hr, c, hc, rfl⟩ := entries x hx
  rw [(furnished.framed.holds.rows r hr).entryRow_eq hc] at here
  exact ⟨r, hr, c, hc, (Except.ok.inj here).symm⟩

theorem secures_sendColumns (level : Nat) : Secures m p (sendColumns o level) fun _ => True := by
  unfold sendColumns
  split
  · exact (secures_look _).bind fun _ _ => (secures_look _).bind fun _ _ => secures_send _
  · exact secures_pure trivial

/-- A row that is tried. -/
theorem Secures.tryRow {below : Search Bool} (inner : Secures m p below fun _ => True)
    (level entry : Nat) : Secures m p (tryRow o level below entry) fun _ => True := by
  refine (secures_send _).bind fun _ _ => ?_
  refine (secures_look _).bind fun columns _ => ?_
  refine (secures_coverEach [] columns).bind fun ⟨covered, outcome⟩ _ => ?_
  refine Secures.ensuring ?_ ((secures_uncoverEach covered).bind fun _ _ => secures_send _)
  cases outcome with
  | ok => exact inner
  | error fault => exact secures_fail fault

/-- Rows that are tried in order. -/
theorem Secures.tryRows {attempt : Nat → Search Bool} {entries : List Nat}
    (each : ∀ x ∈ entries, Secures m p (attempt x) fun _ => True) (found : Bool) :
    Secures m p (tryRows o attempt found entries) fun _ => True := by
  induction entries generalizing found with
  | nil => exact secures_pure trivial
  | cons x entries ih =>
    obtain ⟨first, others⟩ := List.forall_mem_cons.1 each
    refine first.bind fun more _ => ?_
    cases more with
    | false => exact ih others found
    | true =>
      refine secures_limitReached.bind fun full _ => ?_
      cases full with
      | false => exact ih others true
      | true => exact secures_pure trivial

/-- A level of the search, below which entries of rows were chosen. -/
theorem level_secures (room : Nat) {progress : List Nat} (entries : ∀ x ∈ progress, p.IsEntry x) :
    Secures m p (level o room progress) fun _ => True := by
  induction room generalizing progress with
  | zero => exact secures_fail _
  | succ room ih =>
    refine (secures_send _).bind fun _ _ => (secures_look _).bind fun empty _ => ?_
    cases empty with
    | true =>
      refine (secures_send _).bind fun _ _ => ?_
      refine Secures.bind (secures_ask fun _ furnished _ => isOf_capture furnished entries) ?_
      exact fun solution rows => (secures_record rows).bind fun _ _ => secures_pure trivial
    | false =>
      refine (secures_sendColumns _).bind fun _ _ => (secures_look _).bind fun column _ => ?_
      refine (secures_cover column).bind fun _ mem => ?_
      refine (secures_send _).bind fun _ _ => ?_
      refine Secures.ensuring ?_ ((secures_uncover column).bind fun _ _ => secures_send _)
      refine Secures.bind
        (secures_ask fun _ furnished _ => isEntry_of_nodesAfter furnished mem) fun met isEntry => ?_
      refine Secures.tryRows (fun x hx => Secures.tryRow (ih fun y hy => ?_) _ x) false
      rcases List.mem_append.1 hy with old | new
      · exact entries y old
      · exact List.mem_singleton.1 new ▸ isEntry x hx

end Search

namespace Matrix

/-- A search changes nothing but links and counts, and finds solutions that are made of rows. -/
theorem Furnished.solve (furnished : m.Furnished p) (o : Options) :
    (m.solve o).matrix.Furnished p ∧ m.Remains (m.solve o).matrix ∧
      ∀ solutions, (m.solve o).result = .ok solutions → ∀ s ∈ solutions, s.IsOf p := by
  have start : Run.Sound m p { matrix := m } := ⟨furnished, .refl m, nofun⟩
  have nothing : ∀ x ∈ ([] : List Nat), p.IsEntry x := nofun
  obtain ⟨sound, -⟩ := Search.level_secures (o := o) m.levels nothing _ start
  rw [solve_matrix, solve_result]
  refine ⟨sound.furnished, sound.remains, fun solutions ended s mem => ?_⟩
  obtain ⟨_, -, rfl⟩ := ok_of_map ended
  exact sound.found s (Array.mem_toList_iff.1 mem)

end Matrix

/-! ## The names of a solution -/

/-- The rows of a solution are not empty, and made of nodes of the matrix. -/
theorem Solution.IsOf.bound {s : Solution} (rows : s.IsOf p) (furnished : m.Furnished p) :
    ∀ row ∈ s.rows, row ≠ [] ∧ ∀ x ∈ row, x < m.mesh.size := by
  intro row mem
  obtain ⟨r, hr, c, hc, rfl⟩ := rows row mem
  have inRow : ∀ x ∈ r.nodesFrom c, x ∈ r.nodes := fun x there =>
    (Choice.columns_startingAt_perm.map r.node).mem_iff.1 there
  refine ⟨?_, fun x there => (furnished.framed.holds.rows r hr).row.bound x
    (List.mem_cons_of_mem _ (inRow x there))⟩
  rw [Choice.nodesFrom, Choice.columns_startingAt hc]
  exact List.cons_ne_nil _ _

/-- The names of a solution are read off its nodes, so they stay as long as the nodes do. -/
theorem Solution.IsOf.names_eq {s : Solution} (rows : s.IsOf p) (furnished : m.Furnished p)
    (remains : m.Remains m') :
    s.rowNames m'.mesh = s.rowNames m.mesh ∧ s.columnNames m'.mesh = s.columnNames m.mesh := by
  have headers := fun {x} (lt : x < m.mesh.size) =>
    remains.mesh.headerText furnished.framed.confined lt
  constructor
  · refine List.map_congr_left fun row mem => ?_
    obtain ⟨some, inside⟩ := rows.bound furnished row mem
    obtain ⟨first, rest, rfl⟩ := List.exists_cons_of_ne_nil some
    exact (headers (inside first List.mem_cons_self)).1
  · refine List.map_congr_left fun row mem => List.map_congr_left fun x there => ?_
    exact (headers ((rows.bound furnished row mem).2 x there)).2

/-! ## Requests -/

namespace Matrix

/-- Whatever is asked, nodes, columns and rows are kept. -/
theorem Furnished.serve (furnished : m.Furnished p) (request : Request) :
    m.Remains (m.serve request) ∧
      ∃ p', (m.serve request).Furnished p' ∧ ∀ r ∈ p.choices, r ∈ p'.choices := by
  cases request with
  | addRow name columns =>
    cases added : m.addRow name columns with
    | error fault =>
      simp only [Matrix.serve, added]
      exact ⟨.refl m, p, furnished, fun _ hr => hr⟩
    | ok m' =>
      simp only [Matrix.serve, added]
      obtain ⟨remains, headers, -, furnished'⟩ := furnished.addRow added
      exact ⟨remains, _, furnished', fun _ hr => List.mem_append_left _ hr⟩
  | step s =>
    cases done : m.step s with
    | error fault =>
      simp only [Matrix.serve, attempt_of_error done]
      exact ⟨.refl m, p, furnished, fun _ hr => hr⟩
    | ok m' =>
      simp only [Matrix.serve, attempt_of_ok done]
      obtain ⟨furnished', remains⟩ := furnished.step done
      exact ⟨remains, p, furnished', fun _ hr => hr⟩
  | solve o =>
    obtain ⟨furnished', remains, -⟩ := furnished.solve o
    exact ⟨remains, p, furnished', fun _ hr => hr⟩

/-- Whatever is asked one after the other, nodes, columns and rows are kept. -/
theorem Furnished.serveAll (furnished : m.Furnished p) (requests : List Request) :
    m.Remains (m.serveAll requests) ∧
      ∃ p', (m.serveAll requests).Furnished p' ∧ ∀ r ∈ p.choices, r ∈ p'.choices := by
  induction requests generalizing m p with
  | nil => exact ⟨.refl m, p, furnished, fun _ hr => hr⟩
  | cons request requests ih =>
    obtain ⟨remains, p', furnished, kept⟩ := furnished.serve request
    obtain ⟨remains', p'', furnished, kept'⟩ := ih furnished
    exact ⟨remains.trans remains', p'', furnished, fun r hr => kept' r (kept r hr)⟩

/-- Rows, covers, uncovers and searches in any order, refused or not, leave of a matrix what was made
once. A row that is added is met from its header in the order given from then on, every node of it with
the row and the column it was made for. No node changes its label or its headers. A solution names the
same rows and columns at any later time. -/
theorem serveAll_keeps_nodes {primary secondary : List String}
    (made : ofColumns primary secondary = .ok start) (earlier later : List Request) :
    (∀ name columns m', (start.serveAll earlier).addRow name columns = .ok m' →
        (m'.serveAll later).HasRow (start.serveAll earlier).mesh.size name columns) ∧
      (start.serveAll earlier).Remains ((start.serveAll earlier).serveAll later) ∧
      ∀ o solutions, ((start.serveAll earlier).solve o).result = .ok solutions →
        ∀ s ∈ solutions, (∀ row ∈ s.rows, row ≠ []) ∧
          s.rowNames (((start.serveAll earlier).solve o).matrix.serveAll later).mesh
            = s.rowNames ((start.serveAll earlier).solve o).matrix.mesh ∧
          s.columnNames (((start.serveAll earlier).solve o).matrix.serveAll later).mesh
            = s.columnNames ((start.serveAll earlier).solve o).matrix.mesh := by
  obtain ⟨-, p, furnished, -⟩ := (Built.ofColumns made).furnished.serveAll earlier
  refine ⟨fun name columns m' added => ?_, (furnished.serveAll later).1, fun o solutions ended s mem => ?_⟩
  · obtain ⟨remains, headers, found, furnished'⟩ := furnished.addRow added
    obtain ⟨remains', p', furnished'', kept⟩ := furnished'.serveAll later
    rw [← (remains.trans remains').column_eq] at found
    exact furnished''.hasRow (kept _ (List.mem_append_right _ List.mem_cons_self)) found
  · obtain ⟨furnished', -, rows⟩ := furnished.solve o
    have isOf := rows solutions ended s mem
    exact ⟨fun row there => (isOf.bound furnished' row there).1,
      isOf.names_eq furnished' (furnished'.serveAll later).1⟩

/-- Requests that leave the links in a muddle: the first column that was covered is uncovered first. -/
def muddle : List Request :=
  [.addRow "p" ["A", "X"], .step (.cover 2), .step (.cover 3), .addRow "r" ["B", "C"],
    .step (.uncover 2), .addRow "q" ["B"]]

/-- A row is added after them, and a search finds a solution. -/
theorem serveAll_keeps_nodes_sample :
    (∃ m', (sampleColumns.serveAll muddle).addRow "s" ["X", "A"] = .ok m' ∧
        (m'.serveAll muddle).HasRow 10 "s" ["X", "A"]) ∧
      ((sampleColumns.serveAll muddle).solve {}).result = .ok [⟨[[6, 7], [9]]⟩] ∧
      Solution.rowNames (((sampleColumns.serveAll muddle).solve {}).matrix.serveAll muddle).mesh
        ⟨[[6, 7], [9]]⟩ = ["p", "q"] := by
  have made : ofColumns ["A", "B"] ["X"] = .ok sampleColumns := rfl
  obtain ⟨row, -, names⟩ := serveAll_keeps_nodes made muddle muddle
  have size : (sampleColumns.serveAll muddle).mesh.size = 10 := by decide +kernel
  have found : ((sampleColumns.serveAll muddle).solve {}).result = .ok [⟨[[6, 7], [9]]⟩] :=
    eq_ok_of_toOption (by decide +kernel)
  refine ⟨?_, found, ?_⟩
  · rw [size] at row
    exact ⟨_, rfl, row "s" ["X", "A"] _ rfl⟩
  · rw [(names {} _ found _ List.mem_cons_self).2.1]
    decide +kernel

end Matrix

end DancingLinks
