import DancingLinks.Proofs.Matrix.Views
import DancingLinks.Proofs.Search.Explore

/-!
# The search does what it does without links

A level of the search on a matrix sends the same events, records the same solutions and ends in the
same way as `Search.explore` on the problem that is left, and leaves the matrix linked as it found it
(`level_mirrors`). This needs that no listener refuses to hear which column was covered, since only
then is every cover undone.

`Search.Mirrors` is the relation, and has a rule for every way to put steps together. The covers of a
level are nested, so what is put back in reverse order is undone by `Unwinds` (`Mirrors.closing`).
-/

namespace DancingLinks

variable {α β : Type} {o : Options} {p : Problem Nat} {base covered done cs : List Nat} {c : Nat}
  {m m₁ start : Matrix} {run run' : Run} {event : Event}

/-- No listener refuses to hear which column was covered. -/
def Options.Steady (o : Options) : Prop :=
  ∀ listener ∈ o.listener, ∀ number level column,
    listener.accepts number (.chose level column) = true

theorem Options.Patient.steady (patient : o.Patient) : o.Steady :=
  fun listener heard number level column => patient listener heard number (.chose level column)

/-- The same solutions and events so far, whatever became of the matrix. -/
structure Run.Same (run run' : Run) : Prop where
  found : run.found = run'.found
  events : run.events = run'.events

namespace Search

/-! ## The relation -/

/-- The same outcome, solutions and events, and a matrix linked like `m`. -/
structure Agrees (m : Matrix) (result result' : Except Fault α × Run) : Prop where
  outcome : result.1 = result'.1
  matrix : result.2.matrix.Alike m
  same : result.2.Same result'.2

/-- From a matrix linked like `m`, and back to one, a step does what another does without looking at
the matrix. -/
def Mirrors (m : Matrix) (step plain : Search α) : Prop :=
  ∀ run run', run.matrix.Alike m → run.Same run' → Agrees m (step run) (plain run')

theorem mirrors_pure (a : α) : Mirrors m (pure a) (pure a) :=
  fun _ _ alike same => ⟨rfl, alike, same⟩

theorem mirrors_send (event : Event) : Mirrors m (send o event) (send o event) := by
  intro run run' alike same
  unfold send
  cases o.listener with
  | none => exact ⟨rfl, alike, same⟩
  | some listener =>
    simp only [same.events]
    exact ⟨rfl, alike, same.found, rfl⟩

theorem mirrors_record (solution : Solution) : Mirrors m (record solution) (record solution) :=
  fun _ _ alike same => ⟨rfl, alike, by simp only [record, same.found], same.events⟩

theorem mirrors_limitReached : Mirrors m (limitReached o) (limitReached o) :=
  fun _ _ alike same => ⟨by simp only [limitReached, same.found], alike, same⟩

/-- Steps one after the other. -/
theorem Mirrors.bind {step plain : Search α} {next next' : α → Search β}
    (first : Mirrors m step plain) (rest : ∀ a, Mirrors m (next a) (next' a)) :
    Mirrors m (step >>= next) (plain >>= next') := by
  intro run run' alike same
  obtain ⟨outcome, alike, same⟩ := first run run' alike same
  rw [bind_apply, bind_apply]
  generalize step run = ran at outcome alike same ⊢
  generalize plain run' = ran' at outcome same ⊢
  obtain ⟨result, after⟩ := ran
  obtain ⟨result', after'⟩ := ran'
  obtain rfl : result = result' := outcome
  cases result with
  | ok a => exact rest a after after' alike same
  | error fault => exact ⟨rfl, alike, same⟩

/-- A question about the matrix whose answer is known. -/
theorem Mirrors.ask {a : α} {question : Matrix → Except Fault α} {next : α → Search β}
    {plain : Search β} (rest : Mirrors m (next a) plain)
    (answer : ∀ m', m'.Alike m → question m' = .ok a) :
    Mirrors m (ask question >>= next) plain := by
  intro run run' alike same
  rw [bind_apply, Search.ask, answer _ alike]
  exact rest run run' alike same

/-- Rows that are tried in order. -/
theorem Mirrors.rows {attempt : Nat → Search Bool} {attempt' : Choice Nat → Search Bool}
    {rows : List (Choice Nat)} (c : Nat)
    (each : ∀ r ∈ rows, Mirrors m (attempt (r.node c)) (attempt' r)) (before : Bool) :
    Mirrors m (tryRows o attempt before (rows.map (·.node c)))
      (exploreRows o attempt' before rows) := by
  induction rows generalizing before with
  | nil => exact mirrors_pure before
  | cons r rows ih =>
    have rest := ih fun r' hr' => each r' (List.mem_cons_of_mem _ hr')
    refine (each r List.mem_cons_self).bind fun found => ?_
    cases found with
    | false => exact rest before
    | true =>
      refine mirrors_limitReached.bind fun full => ?_
      cases full with
      | false => exact rest true
      | true => exact mirrors_pure true

/-! ## Covers that are undone -/

open DancingLinks.Matrix (Unwinds)

/-- A column that is left can be covered. -/
theorem cover_unwinds (run : Run) (initial : start.Stands p base)
    (unwinds : Unwinds start p base done run.matrix) (mem : c ∈ p.columns)
    (free : c ∉ done ++ base) :
    ∃ m', cover c run = (.ok (), { run with matrix := m' }) ∧
      Unwinds start p base (c :: done) m' := by
  have stands := unwinds.stands initial
  refine ⟨_, by rw [cover, stands.coverPlan_eq mem free], stands.hide mem free, ?_⟩
  exact unwinds.congr (stands.reveal_hide mem free).symm

/-- The column that was covered last can be uncovered. -/
theorem uncover_unwinds (run : Run) (unwinds : Unwinds start p base (c :: done) run.matrix) :
    ∃ m', uncover c run = (.ok (), { run with matrix := m' }) ∧ Unwinds start p base done m' :=
  ⟨_, by simp only [uncover, unwinds.1.uncoverPlan_eq]; rfl, unwinds.2⟩

/-- Columns that are left can be covered one after the other. -/
theorem coverEach_unwinds (run : Run) (initial : start.Stands p base)
    (unwinds : Unwinds start p base done run.matrix) (nodup : cs.Nodup)
    (mem : ∀ c ∈ cs, c ∈ p.columns) (free : ∀ c ∈ cs, c ∉ done ++ base) :
    ∃ m', coverEach done cs run
        = (.ok (cs.reverse ++ done, .ok ()), { run with matrix := m' }) ∧
      Unwinds start p base (cs.reverse ++ done) m' := by
  induction cs generalizing done run with
  | nil => exact ⟨run.matrix, rfl, unwinds⟩
  | cons c cs ih =>
    obtain ⟨new, nodup⟩ := List.nodup_cons.1 nodup
    obtain ⟨m₁, covers, unwinds⟩ := cover_unwinds run initial unwinds (mem c List.mem_cons_self)
      (free c List.mem_cons_self)
    have free' : ∀ d ∈ cs, d ∉ c :: done ++ base := fun d hd there => by
      rcases List.mem_cons.1 there with rfl | there
      · exact new hd
      · exact free d (List.mem_cons_of_mem _ hd) there
    obtain ⟨m', rest, unwinds⟩ := ih { run with matrix := m₁ } unwinds nodup
      (fun d hd => mem d (List.mem_cons_of_mem _ hd)) free'
    rw [List.reverse_cons, List.append_assoc, List.singleton_append]
    refine ⟨m', ?_, unwinds⟩
    simp only [coverEach, covers]
    exact rest

/-- What was covered, the latest first, is uncovered. -/
theorem uncoverEach_unwinds (run : Run) (unwinds : Unwinds start p base done run.matrix) :
    ∃ m', uncoverEach done run = (.ok (), { run with matrix := m' }) ∧ m'.Alike start := by
  induction done generalizing run with
  | nil => exact ⟨run.matrix, rfl, unwinds⟩
  | cons c done ih =>
    obtain ⟨m₁, uncovers, unwinds⟩ := uncover_unwinds run unwinds
    obtain ⟨m', rest, alike⟩ := ih { run with matrix := m₁ } unwinds
    refine ⟨m', ?_, alike⟩
    rw [uncoverEach, bind_apply, uncovers]
    exact rest

theorem uncoverEach_singleton (c : Nat) : uncoverEach [c] = uncover c := by
  funext run
  rw [uncoverEach, bind_apply]
  split
  · next run' uncovers => rw [uncovers]; rfl
  · next fault run' uncovers => rw [uncovers]

/-- A step between covers and uncovers is one without them, whatever comes of it. -/
theorem Mirrors.closing {step plain : Search α} (inner : Mirrors m₁ step plain)
    (unwinds : Unwinds start p base done m₁) (event : Event) (alike : run.matrix.Alike m₁)
    (same : run.Same run') :
    Agrees start (ensuring step (do uncoverEach done; send o event) run)
      (ensuring plain (send o event) run') := by
  obtain ⟨outcome, alike, same⟩ := inner run run' alike same
  unfold ensuring
  generalize step run = ran at outcome alike same ⊢
  generalize plain run' = ran' at outcome same ⊢
  obtain ⟨result, after⟩ := ran
  obtain ⟨result', after'⟩ := ran'
  obtain rfl : result = result' := outcome
  obtain ⟨m', uncovers, alike'⟩ := uncoverEach_unwinds after (unwinds.congr alike.symm)
  obtain ⟨outcome, alike, same⟩ := mirrors_send (o := o) event { after with matrix := m' } after'
    alike' ⟨same.found, same.events⟩
  simp only [bind_apply, uncovers]
  generalize send o event { after with matrix := m' } = sent at outcome alike same ⊢
  generalize send o event after' = sent' at outcome same ⊢
  obtain ⟨answer, after₁⟩ := sent
  obtain ⟨answer', after₁'⟩ := sent'
  obtain rfl : answer = answer' := outcome
  cases answer with
  | ok => exact ⟨rfl, alike, same⟩
  | error fault => exact ⟨rfl, alike, same⟩

/-- An event that no listener refuses. -/
theorem send_chose (steady : o.Steady) (level column : Nat) (run : Run) :
    (send o (.chose level column) run).1 = .ok () := by
  unfold send
  cases heard : o.listener with
  | none => rfl
  | some listener => simp only [steady listener heard, if_true]

/-- A step with a column covered for it. -/
theorem Mirrors.column {step plain : Search α} (stands : m.Stands p covered) (steady : o.Steady)
    (mem : c ∈ p.columns) (free : c ∉ covered) (level : Nat) (event : Event)
    (inner : ∀ m₁, m₁.Stands p (c :: covered) → Mirrors m₁ step plain) :
    Mirrors m
      (do cover c; send o (.chose level c); ensuring step (do uncover c; send o event))
      (do send o (.chose level c); ensuring plain (send o event)) := by
  intro run run' alike same
  obtain ⟨m₁, covers, unwinds⟩ := cover_unwinds run stands
    (show Unwinds m p covered [] run.matrix from alike) mem free
  have chosen := send_chose steady level c
  obtain ⟨-, alike₁, same₁⟩ := (mirrors_send (.chose level c) : Mirrors m₁ (send o _) _)
    { run with matrix := m₁ } run' (.refl m₁) ⟨same.found, same.events⟩
  have ok := chosen { run with matrix := m₁ }
  have ok' := chosen run'
  simp only [bind_apply, covers]
  generalize send o (.chose level c) { run with matrix := m₁ } = sent at ok alike₁ same₁ ⊢
  generalize send o (.chose level c) run' = sent' at ok' same₁ ⊢
  obtain ⟨result, after⟩ := sent
  obtain ⟨result', after'⟩ := sent'
  obtain rfl : result = .ok () := ok
  obtain rfl : result' = .ok () := ok'
  have closed := (inner m₁ (unwinds.stands stands)).closing (o := o) unwinds event alike₁ same₁
  rw [uncoverEach_singleton] at closed
  exact closed

/-- A row that is tried with its other columns covered. -/
theorem Mirrors.row {below plain : Search Bool} {entry level : Nat} (stands : m.Stands p covered)
    (others : ∀ m' : Matrix, m'.Alike m → m'.otherColumns entry = .ok cs) (nodup : cs.Nodup)
    (mem : ∀ c ∈ cs, c ∈ p.columns) (free : ∀ c ∈ cs, c ∉ covered)
    (inner : ∀ m₁, m₁.Stands p (cs.reverse ++ covered) → Mirrors m₁ below plain) :
    Mirrors m (tryRow o level below entry)
      (do send o (.adding level entry); ensuring plain (send o (.removing level entry))) := by
  refine (mirrors_send _).bind fun _ => Mirrors.ask ?_ others
  intro run run' alike same
  obtain ⟨m₁, covers, unwinds⟩ := coverEach_unwinds run stands
    (show Unwinds m p covered [] run.matrix from alike) nodup mem free
  rw [List.append_nil] at covers unwinds
  rw [bind_apply, covers]
  exact (inner m₁ (unwinds.stands stands)).closing unwinds _ (.refl m₁) ⟨same.found, same.events⟩

/-! ## The search -/

/-- The columns left are those of the problem, and are looked up only for a listener. -/
theorem mirrors_sendColumns (stands : m.Stands p covered) (level : Nat) :
    Mirrors m (sendColumns o level)
      (send o (.available level (p.without covered).primary (p.without covered).secondary)) := by
  unfold sendColumns
  cases heard : o.listener with
  | none =>
    intro run run' alike same
    simp only [send, heard]
    exact ⟨rfl, alike, same⟩
  | some listener =>
    have primary := fun m' (alike : Matrix.Alike m' m) =>
      (stands.congr alike.symm).primaryColumns_eq
    have secondary := fun m' (alike : Matrix.Alike m' m) =>
      (stands.congr alike.symm).secondaryColumns_eq
    exact Mirrors.ask (Mirrors.ask (mirrors_send _) secondary) primary

/-- The solution that is recorded at the end of a branch. -/
theorem capture_eq (stands : m.Stands p covered) {branch : List (Choice Nat × Nat)}
    (chosen : ∀ b ∈ branch, b.1 ∈ p.choices ∧ b.2 ∈ b.1.columns) :
    m.capture (branch.map fun b => b.1.node b.2) = .ok (.ofBranch branch) := by
  have rows : (branch.map fun b => b.1.node b.2).mapM m.entryRow
      = .ok (branch.map fun b => b.1.nodesFrom b.2) := by
    rw [List.mapM_map]
    exact mapM_ok fun b hb => stands.entryRow_eq (chosen b hb).1 (chosen b hb).2
  rw [Matrix.capture, rows]
  rfl

/-- Nothing is left to branch on exactly when there is no pivot. -/
theorem isEmpty_eq (stands : m.Stands p covered) :
    m.isEmpty = ((p.without covered).pivot? o.selector).isNone := by
  rw [Bool.eq_iff_iff, stands.isEmpty_iff, Option.isNone_iff_eq_none, Problem.pivot?_eq_none]

/-- At the end of a branch its solution is recorded. -/
theorem mirrors_record_branch (stands : m.Stands p covered) {branch : List (Choice Nat × Nat)}
    (chosen : ∀ b ∈ branch, b.1 ∈ p.choices ∧ b.2 ∈ b.1.columns) :
    Mirrors m (do record (← ask (·.capture (branch.map fun b => b.1.node b.2))); return true)
      (do record (.ofBranch branch); return true) := by
  refine Mirrors.ask ?_ fun m' alike => capture_eq (stands.congr alike.symm) chosen
  exact (mirrors_record _).bind fun _ => mirrors_pure true

/-- A choice that is left can be tried: when the columns beside the pivot are covered, the matrix
stands at what the choice leaves. -/
theorem Mirrors.choice {below plain : Search Bool} {level : Nat} (stands : m.Stands p (c :: covered))
    (hr : r ∈ (p.without covered).choices) (used : c ∈ r.columns)
    (inner : ∀ m₁ rest, m₁.Stands p rest → p.without rest = (p.without covered).without r.columns →
      Mirrors m₁ below plain) :
    Mirrors m (tryRow o level below (r.node c))
      (do send o (.adding level (r.node c))
          ensuring plain (send o (.removing level (r.node c)))) := by
  obtain ⟨inProblem, avoids⟩ := Problem.mem_choices_without.1 hr
  have row := stands.shows.holds.rows r inProblem
  have others : ∀ m' : Matrix, m'.Alike m →
      m'.otherColumns (r.node c) = .ok (r.after c ++ r.before c) := fun m' alike =>
    (stands.congr alike.symm).otherColumns_eq inProblem used
  refine Mirrors.row stands others (Choice.nodup_after_before used row.nodup)
    (fun d hd => row.declared d (row.mem_beside used hd).1) (fun d hd there => ?_) fun m₁ stands₁ => ?_
  · obtain ⟨hd, ne⟩ := row.mem_beside used hd
    rcases List.mem_cons.1 there with rfl | there
    · exact ne rfl
    · exact avoids d hd there
  · exact inner m₁ _ stands₁ (p.without_columns used covered).symm

/-- A level of the search on a matrix is one on the problem that is left. -/
theorem level_mirrors (steady : o.Steady) {room : Nat} (branch : List (Choice Nat × Nat))
    (stands : m.Stands p covered) (chosen : ∀ b ∈ branch, b.1 ∈ p.choices ∧ b.2 ∈ b.1.columns) :
    Mirrors m (level o room (branch.map fun b => b.1.node b.2))
      (explore o room (p.without covered) branch) := by
  induction room generalizing m covered branch with
  | zero => exact fun _ _ alike same => ⟨rfl, alike, same⟩
  | succ room ih =>
    have at_ : ∀ m' : Matrix, m'.Alike m → m'.Stands p covered := fun m' alike =>
      stands.congr alike.symm
    have empty : ∀ m' : Matrix, m'.Alike m → (Except.ok m'.isEmpty : Except Fault Bool)
        = .ok ((p.without covered).pivot? o.selector).isNone := fun m' alike =>
      congrArg _ (isEmpty_eq (at_ m' alike))
    rw [level, explore, List.length_map]
    refine (mirrors_send _).bind fun _ => ?_
    cases pivot : (p.without covered).pivot? o.selector with
    | none =>
      rw [pivot] at empty
      refine Mirrors.ask ?_ empty
      exact (mirrors_send _).bind fun _ => mirrors_record_branch stands chosen
    | some c =>
      obtain ⟨hc, free⟩ := Problem.mem_primary_without.1 (Problem.pivot?_mem pivot)
      have mem : c ∈ p.columns := List.mem_append_left _ hc
      rw [pivot] at empty
      refine Mirrors.ask ?_ empty
      refine (mirrors_sendColumns stands _).bind fun _ => ?_
      refine Mirrors.ask ?_ fun m' alike => (at_ m' alike).chooseColumn_eq pivot
      refine Mirrors.column stands steady mem free _ _ fun m₁ stands₁ => ?_
      -- The entries of the pivot are those that were there when it was covered.
      refine Mirrors.ask ?_ fun m' alike => (stands₁.congr alike.symm).nodesAfter_down mem
      rw [Problem.held_cons_self]
      refine Mirrors.rows c (fun r hr => ?_) false
      obtain ⟨hr, used⟩ := List.mem_filter.1 hr
      rw [decide_eq_true_eq] at used
      refine Mirrors.choice stands₁ hr used fun m₂ rest stands₂ left => ?_
      have next := ih (branch ++ [(r, c)]) stands₂ fun b hb => by
        rcases List.mem_append.1 hb with hb | hb
        · exact chosen b hb
        · rw [List.mem_singleton.1 hb]
          exact ⟨(Problem.mem_choices_without.1 hr).1, used⟩
      rw [List.map_append, left] at next
      exact next

end Search

end DancingLinks
