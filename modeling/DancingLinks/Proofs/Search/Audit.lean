import DancingLinks.Proofs.Search.Solve
import DancingLinks.Search.Audit

/-!
# A search keeps its contract

Faults are never lost: an operation that finds the matrix in a state it cannot work on breaks the
search off, and no cleanup makes up for it. So a search that ends with a value did nothing unsound
(`Search.Audits`, with a rule for every way to put steps together), and on a matrix whose covers are
nested a search does end with a value (`Matrix.Stands.level_ends`).

How deep a search goes is told by the room it needs. With room for one level more than there are
primary columns left it ends, and with still more room it does the same (`Stands.audit_sound`).
-/

namespace DancingLinks

variable {α β : Type} {o : Options} {n c : Nat} {m start : Matrix} {q : Problem String}
  {covered : List Nat}

namespace Search

/-- A watched step does what the step does. When it ends with a value, its operations were all
sound, and a step that has more room does the same. -/
def Audits (n : Nat) (step : Search α) (watched roomier : Audited α) : Prop :=
  ∀ run, (watched run).1 = step run ∧ ∀ a, (step run).1 = .ok a →
    roomier run = watched run ∧ ∀ e ∈ (watched run).2, e.Sound n

theorem audits_plain (step : Search α) : Audits n step (.plain step) (.plain step) :=
  fun _ => ⟨rfl, fun _ _ => ⟨rfl, nofun⟩⟩

theorem audits_pure (a : α) : Audits n (pure a) (pure a) (pure a) :=
  fun _ => ⟨rfl, fun _ _ => ⟨rfl, nofun⟩⟩

/-- An operation is sound when its question has an answer only if what it demands is there. -/
theorem audits_does {operation : Operation} {question : Matrix → Except Fault α}
    (sound : ∀ m a, question m = .ok a → Entry.Sound n ⟨m, operation⟩) :
    Audits n (ask question) (.does operation question) (.does operation question) :=
  fun run => ⟨rfl, fun a answer => ⟨rfl, fun _ mem =>
    List.mem_singleton.1 mem ▸ sound run.matrix a answer⟩⟩

/-- What a watched step and the step come to. -/
theorem Audits.cases {step : Search α} {watched roomier : Audited α}
    (audits : Audits n step watched roomier) (run : Run) :
    ∃ outcome after entries, step run = (outcome, after) ∧
      watched run = ((outcome, after), entries) ∧
      ∀ a, outcome = .ok a →
        roomier run = ((outcome, after), entries) ∧ ∀ e ∈ entries, e.Sound n := by
  obtain ⟨same, sound⟩ := audits run
  have seen : watched run = (step run, (watched run).2) := by rw [← same]
  refine ⟨_, _, _, rfl, seen, fun a ended => ?_⟩
  obtain ⟨roomy, here⟩ := sound a ended
  exact ⟨roomy.trans seen, here⟩

/-- Steps one after the other. -/
theorem Audits.bind {step : Search α} {watched roomier : Audited α} {next : α → Search β}
    {next' next'' : α → Audited β} (first : Audits n step watched roomier)
    (rest : ∀ a, Audits n (next a) (next' a) (next'' a)) :
    Audits n (step >>= next) (watched >>= next') (roomier >>= next'') := by
  intro run
  obtain ⟨outcome, after, entries, ran, seen, sound⟩ := first.cases run
  rw [bind_apply, Audited.bind_apply, Audited.bind_apply, ran, seen]
  cases outcome with
  | error fault => exact ⟨rfl, nofun⟩
  | ok a =>
    obtain ⟨roomy, here⟩ := sound a rfl
    obtain ⟨same', sound'⟩ := rest a after
    refine ⟨same', fun b ended => ?_⟩
    obtain ⟨roomy', there⟩ := sound' b ended
    refine ⟨by simp only [roomy, roomy'], fun e mem => ?_⟩
    exact (List.mem_append.1 mem).elim (here e) (there e)

/-- A cleanup after a step. -/
theorem Audits.ensuring {step : Search α} {watched roomier : Audited α} {cleanup : Search Unit}
    {cleanup' : Audited Unit} (inner : Audits n step watched roomier)
    (last : Audits n cleanup cleanup' cleanup') :
    Audits n (ensuring step cleanup) (.ensuring watched cleanup')
      (.ensuring roomier cleanup') := by
  intro run
  obtain ⟨outcome, after, entries, ran, seen, sound⟩ := inner.cases run
  obtain ⟨outcome', after', entries', ran', seen', sound'⟩ := last.cases after
  simp only [Search.ensuring, Audited.ensuring, ran, seen, ran', seen']
  cases outcome' with
  | error fault => exact ⟨rfl, fun a ended => by cases ended⟩
  | ok =>
    refine ⟨rfl, fun a ended => ?_⟩
    obtain ⟨roomy, here⟩ := sound a ended
    obtain ⟨-, there⟩ := sound' () rfl
    refine ⟨by simp only [roomy, seen'], fun e mem => ?_⟩
    exact (List.mem_append.1 mem).elim (here e) (there e)

/-! ## Questions -/

/-- Questions one after the other. -/
theorem ask_bind (question : Matrix → Except Fault α) (next : α → Matrix → Except Fault β) :
    ask (fun m => question m >>= fun a => next a m) = (ask question >>= fun a => ask (next a)) := by
  funext run
  rw [bind_apply, ask, ask]
  cases question run.matrix with
  | ok a => rfl
  | error fault => rfl

theorem audits_walk (way : Direction) (node : Nat) :
    Audits n (ask (·.nodesAfter way node)) (.walk way node) (.walk way node) :=
  audits_does fun _ nodes closed => ⟨nodes, closed⟩

/-- What is found out from each of some things. -/
theorem audits_each {question : α → Matrix → Except Fault β} {find : α → Audited β}
    (one : ∀ x, Audits n (ask (question x)) (find x) (find x)) (xs : List α) :
    Audits n (ask fun m => xs.mapM fun x => question x m) (.each find xs)
      (.each find xs) := by
  induction xs with
  | nil => exact audits_pure []
  | cons x xs ih =>
    simp only [List.mapM_cons, ask_bind]
    exact (one x).bind fun y => ih.bind fun ys => audits_plain _

theorem audits_otherColumns (entry : Nat) :
    Audits n (ask (·.otherColumns entry)) (.otherColumns entry) (.otherColumns entry) := by
  unfold Matrix.otherColumns
  rw [ask_bind]
  exact (audits_walk .right entry).bind fun _ => audits_plain _

/-- A selector picks something only where there is something. -/
theorem audits_chooseColumn (s : Selector) :
    Audits n (ask (·.chooseColumn s)) (.chooseColumn s) (.chooseColumn s) := by
  unfold Matrix.chooseColumn
  rw [ask_bind]
  refine (audits_walk .right Matrix.primaryRoot).bind fun columns => audits_does ?_
  rintro m column picked rfl
  cases picked

theorem audits_entryRow (entry : Nat) :
    Audits n (ask (·.entryRow entry)) (.entryRow entry) (.entryRow entry) := by
  unfold Matrix.entryRow
  rw [ask_bind]
  exact (audits_walk .right entry).bind fun _ => audits_plain _

theorem audits_capture (progress : List Nat) :
    Audits n (ask (·.capture progress)) (.capture progress) (.capture progress) := by
  unfold Matrix.capture
  rw [ask_bind]
  exact (audits_each audits_entryRow progress).bind fun _ => audits_plain _

/-! ## Covers -/

theorem checkUncovered_ok (checked : m.checkUncovered c = .ok ()) : m.isCovered c = .ok false := by
  obtain ⟨there, answer, checked⟩ := ok_of_bind checked
  cases there with
  | true => cases checked
  | false => exact answer

theorem checkCovered_ok (checked : m.checkCovered c = .ok ()) : m.isCovered c = .ok true := by
  obtain ⟨there, answer, checked⟩ := ok_of_bind checked
  cases there with
  | true => exact answer
  | false => cases checked

theorem audits_rowMates (along across : Direction) (c : Nat) :
    Audits n (ask (·.rowMates along across c)) (.rowMates along across c)
      (.rowMates along across c) := by
  unfold Matrix.rowMates
  rw [ask_bind]
  refine (audits_walk along c).bind fun entries => ?_
  rw [ask_bind]
  exact (audits_each (audits_walk across) entries).bind fun _ => audits_plain _

theorem audits_coverPlan (c : Nat) :
    Audits n (ask (·.coverPlan c)) (.coverPlan c) (.coverPlan c) := by
  have parts : (fun m : Matrix => m.coverPlan c)
      = fun m => m.checkUncovered c >>= fun _ => m.rowMates .down .right c := by
    funext m
    unfold Matrix.coverPlan Matrix.checkUncovered
    cases m.isCovered c with
    | error fault => rfl
    | ok there => cases there <;> rfl
  rw [parts, ask_bind]
  exact (audits_does fun _ _ => checkUncovered_ok).bind fun _ => audits_rowMates _ _ c

theorem audits_uncoverPlan (c : Nat) :
    Audits n (ask (·.uncoverPlan c)) (.uncoverPlan c) (.uncoverPlan c) := by
  have parts : (fun m : Matrix => m.uncoverPlan c)
      = fun m => m.checkCovered c >>= fun _ => m.rowMates .up .left c := by
    funext m
    unfold Matrix.uncoverPlan Matrix.checkCovered
    cases m.isCovered c with
    | error fault => rfl
    | ok there => cases there <;> rfl
  rw [parts, ask_bind]
  exact (audits_does fun _ _ => checkCovered_ok).bind fun _ => audits_rowMates _ _ c

theorem audits_cover (c : Nat) : Audits n (cover c) (.cover c) (.cover c) := by
  have parts : cover c = (ask (·.coverPlan c) >>= fun nodes => rewire (·.hide c nodes)) := by
    funext run
    rw [bind_apply, ask, cover]
    cases run.matrix.coverPlan c <;> rfl
  rw [parts]
  exact (audits_coverPlan c).bind fun _ => audits_plain _

theorem audits_uncover (c : Nat) : Audits n (uncover c) (.uncover c) (.uncover c) := by
  have parts : uncover c = (ask (·.uncoverPlan c) >>= fun nodes => rewire (·.reveal c nodes)) := by
    funext run
    rw [bind_apply, ask, uncover]
    cases run.matrix.uncoverPlan c <;> rfl
  rw [parts]
  exact (audits_uncoverPlan c).bind fun _ => audits_plain _

/-- Columns that are covered one after the other. When one of them is refused that is the outcome,
and nothing is said about the operations. -/
theorem audits_coverEach (done cs : List Nat) (run : Run) :
    (Audited.coverEach done cs run).1 = coverEach done cs run ∧
      ∀ done', (coverEach done cs run).1 = .ok (done', .ok ()) →
        ∀ e ∈ (Audited.coverEach done cs run).2, e.Sound n := by
  induction cs generalizing done run with
  | nil => exact ⟨rfl, fun _ _ => nofun⟩
  | cons c cs ih =>
    obtain ⟨outcome, after, entries, ran, seen, sound⟩ := (audits_cover (n := n) c).cases run
    simp only [coverEach, Audited.coverEach, ran, seen]
    cases outcome with
    | error fault => exact ⟨rfl, fun done' ended => by cases ended⟩
    | ok =>
      obtain ⟨same', sound'⟩ := ih (c :: done) after
      refine ⟨same', fun done' ended e mem => ?_⟩
      exact (List.mem_append.1 mem).elim ((sound () rfl).2 e) (sound' done' ended e)

theorem audits_uncoverEach (cs : List Nat) :
    Audits n (uncoverEach cs) (.uncoverEach cs) (.uncoverEach cs) := by
  induction cs with
  | nil => exact audits_pure ()
  | cons c cs ih => exact (audits_uncover c).bind fun _ => ih

/-! ## The search -/

theorem audits_sendColumns (level : Nat) :
    Audits n (sendColumns o level) (.sendColumns o level) (.sendColumns o level) := by
  unfold sendColumns Audited.sendColumns
  split
  · exact (audits_walk .right _).bind fun _ => (audits_walk .right _).bind fun _ => audits_plain _
  · exact audits_pure ()

/-- What is broken off stays so, whatever the cleanup does. -/
theorem ensuring_fail (fault : Fault) (cleanup : Search Unit) (run : Run) (a : α) :
    (ensuring (fail fault) cleanup run).1 ≠ .ok a := by
  rw [ensuring, fail]
  dsimp only
  intro ended
  split at ended <;> cases ended

/-- A row that is tried. -/
theorem Audits.tryRow {below : Search Bool} {watched roomier : Audited Bool}
    (inner : Audits n below watched roomier) (level entry : Nat) :
    Audits n (tryRow o level below entry) (.tryRow o level watched entry)
      (.tryRow o level roomier entry) := by
  refine (audits_plain _).bind fun _ => (audits_otherColumns entry).bind fun columns => ?_
  intro run
  obtain ⟨same, sound⟩ := audits_coverEach (n := n) [] columns run
  rw [bind_apply, Audited.bind_apply, Audited.bind_apply]
  generalize Audited.coverEach [] columns run = seen at same sound ⊢
  generalize coverEach [] columns run = ran at same sound ⊢
  obtain ⟨⟨result, after⟩, record⟩ := seen
  obtain rfl : (result, after) = ran := same
  cases result with
  | error fault => exact ⟨rfl, nofun⟩
  | ok answer =>
    obtain ⟨done, outcome⟩ := answer
    have close := (audits_uncoverEach (n := n) done).bind fun _ =>
      audits_plain (send o (.removing level entry))
    cases outcome with
    | error fault =>
      have same' := ((audits_plain (α := Bool) (fail fault)).ensuring close after).1
      exact ⟨same', fun a ended => absurd ended (ensuring_fail fault _ after a)⟩
    | ok =>
      obtain ⟨same', sound'⟩ := inner.ensuring close after
      refine ⟨same', fun a ended => ?_⟩
      obtain ⟨roomy, there⟩ := sound' a ended
      refine ⟨congrArg (fun whole => (whole.1, record ++ whole.2)) roomy, fun e mem => ?_⟩
      exact (List.mem_append.1 mem).elim (sound done rfl e) (there e)

/-- Rows that are tried in order. -/
theorem Audits.tryRows {attempt : Nat → Search Bool} {watched roomier : Nat → Audited Bool}
    (one : ∀ entry, Audits n (attempt entry) (watched entry) (roomier entry)) (before : Bool)
    (entries : List Nat) :
    Audits n (tryRows o attempt before entries) (.tryRows o watched before entries)
      (.tryRows o roomier before entries) := by
  induction entries generalizing before with
  | nil => exact audits_pure before
  | cons entry entries ih =>
    refine (one entry).bind fun found => ?_
    cases found with
    | false => exact ih before
    | true =>
      refine (audits_plain (limitReached o)).bind fun full => ?_
      cases full with
      | false => exact ih true
      | true => exact audits_pure true

/-- A level of the search. It goes no deeper than there is room for. -/
theorem level_audits {room more : Nat} (le : room ≤ more) (progress : List Nat)
    (deep : progress.length + room ≤ n + 1) :
    Audits n (level o room progress) (.level o room progress) (.level o more progress) := by
  induction room generalizing more progress with
  | zero => exact fun _ => ⟨rfl, fun _ => nofun⟩
  | succ room ih =>
    obtain ⟨more, rfl⟩ : ∃ k, more = k + 1 := ⟨more - 1, by omega⟩
    have enter : Audits n (ask fun _ => .ok ()) (.does (.enter progress.length) fun _ => .ok ())
        (.does (.enter progress.length) fun _ => .ok ()) :=
      audits_does fun _ _ _ => show progress.length ≤ n by omega
    refine enter.bind fun _ => (audits_plain _).bind fun _ => (audits_plain _).bind fun empty => ?_
    cases empty with
    | true =>
      refine (audits_plain _).bind fun _ => (audits_capture progress).bind fun solution => ?_
      exact (audits_plain _).bind fun _ => audits_pure true
    | false =>
      refine (audits_sendColumns _).bind fun _ => (audits_chooseColumn _).bind fun column => ?_
      refine (audits_cover column).bind fun _ => (audits_plain _).bind fun _ => ?_
      refine Audits.ensuring ((audits_walk .down column).bind fun entries => ?_)
        ((audits_uncover column).bind fun _ => audits_plain _)
      refine Audits.tryRows (fun entry => Audits.tryRow ?_ _ entry) false entries
      exact ih (by omega) (progress ++ [entry]) (by simp; omega)

end Search

namespace Matrix

variable {p : Problem Nat} {room : Nat}

/-- A search ends with a value when it has room for a level more than there are primary columns
left. -/
theorem Stands.level_ends (stands : m.Stands p covered) (patient : o.Patient)
    (enough : (p.without covered).primary.length < room) :
    ∃ found, (Search.level o room [] { matrix := m }).1 = .ok found := by
  have mirrors : Search.Mirrors m (Search.level o room [])
      (Search.explore o room (p.without covered) []) :=
    Search.level_mirrors patient.steady [] stands nofun
  obtain ⟨outcome, -, -⟩ := mirrors { matrix := m } { matrix := m } (.refl m) ⟨rfl, rfl⟩
  obtain ⟨run', ends, -⟩ := Search.explore_finds patient enough [] { matrix := m } o.reached_zero
  exact ⟨_, outcome.trans (congrArg Prod.fst ends)⟩

/-- A search does the same whatever more room it has than a level for each primary column left, and
then all that it does with the links is sound. -/
theorem Stands.audit_sound (stands : m.Stands p covered) (patient : o.Patient)
    (enough : (p.without covered).primary.length < room) :
    Audited.level o room [] { matrix := m }
        = Audited.level o ((p.without covered).primary.length + 1) [] { matrix := m } ∧
      ∀ e ∈ m.audit o room, e.Sound (p.without covered).primary.length := by
  obtain ⟨found, ended⟩ := stands.level_ends patient (Nat.lt_succ_self _)
  have audits := Search.level_audits (o := o) (Nat.succ_le_of_lt enough) []
    (Nat.le_of_eq (Nat.zero_add _)) { matrix := m }
  obtain ⟨same, sound⟩ := audits.2 found ended
  refine ⟨same, fun e mem => sound e ?_⟩
  rwa [audit, same] at mem

/-- A search never breaks its contract. On a matrix that was built by its columns and rows, and then
had columns covered and uncovered in nested order, it ends with solutions, however much room it is
given beyond a level for each primary column left. It enters no deeper level than there are such
columns, every ring that it walks around leads back to its start, no selector is asked to pick from
nothing, and it covers only headers of columns that are not covered at that moment and uncovers only
those of columns that are. -/
theorem solve_keeps_contract (built : Built start q) (nested : Nested start covered m)
    (patient : o.Patient) :
    let left := (q.numbered.without covered).primary
    m.primaryColumns = .ok left ∧ (∃ solutions, (m.solve o).result = .ok solutions) ∧
      left.length < m.levels ∧
      ∀ room, left.length < room →
        Search.level o room [] { matrix := m } = Search.level o m.levels [] { matrix := m } ∧
        (Audited.level o room [] { matrix := m }).1 = Search.level o room [] { matrix := m } ∧
        ∀ e ∈ m.audit o room, e.Sound left.length := by
  obtain ⟨stands, -⟩ := built.stands_numbered nested
  have forget : ∀ room, (Audited.level o room [] { matrix := m }).1
      = Search.level o room [] { matrix := m } := fun room =>
    (Search.level_audits (Nat.le_refl room) [] (Nat.le_succ_of_le (Nat.zero_add room).le) _).1
  refine ⟨stands.primaryColumns_eq, ⟨_, (stands.solve patient).1⟩, stands.lt_levels,
    fun room enough => ?_⟩
  obtain ⟨same, sound⟩ := stands.audit_sound patient enough
  obtain ⟨same', -⟩ := stands.audit_sound patient stands.lt_levels
  exact ⟨by rw [← forget, ← forget, same, same'], forget room, sound⟩

/-- With the secondary column of the sample covered two primary columns are left, and so three
levels are enough. -/
theorem solve_keeps_contract_sample :
    (∃ solutions, ((sample.hide 4 [5, 6]).solve {}).result = .ok solutions) ∧
      ∀ e ∈ (sample.hide 4 [5, 6]).audit {} 3, e.Sound 2 := by
  have nested : Nested sample [4] (sample.hide 4 [5, 6]) := .cover (c := 4) .start rfl
  obtain ⟨-, ends, -, keeps⟩ := solve_keeps_contract (o := {}) built_sample nested nofun
  exact ⟨ends, (keeps 3 (by decide)).2.2⟩

end Matrix

end DancingLinks
