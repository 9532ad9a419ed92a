import DancingLinks.Proofs.Search.Listeners
import DancingLinks.Proofs.Search.Solve

/-!
# Searches that are broken off

A listener breaks a search off by refusing an event, and nothing else does (`explore_breaks`). As
long as it is not the choice of a column that is refused, the matrix is linked afterwards as it was
before, since the run is also that of a steady listener (`solve_restores_refused`).

The condition is needed. A column is covered before the listener hears of it, and only what comes
after that is followed by the uncover, so a refusal right there leaves the column covered
(`not_restored_refused_choice`).
-/

namespace DancingLinks

variable {α β : Type} {o : Options} {l l' : Listener} {events : List Event}
  {m start : Matrix} {p : Problem Nat} {q : Problem String} {covered : List Nat}

/-! ## Refusals -/

/-- The listener that refuses one event, given by its number in the run. -/
def Listener.refusing (refused : Nat) : Listener := ⟨fun number _ => number != refused⟩

namespace Options

/-- Somebody refuses one of some events, which are numbered from `first` on. -/
def Refuses (o : Options) (first : Nat) (events : List Event) : Prop :=
  ∃ listener ∈ o.listener, ∃ sent ∈ events.zipIdx first, listener.accepts sent.2 sent.1 = false

instance (o : Options) (first : Nat) (events : List Event) : Decidable (o.Refuses first events) :=
  inferInstanceAs (Decidable (∃ listener ∈ o.listener, _))

theorem not_refuses_nil (o : Options) (first : Nat) : ¬o.Refuses first [] := by
  rintro ⟨listener, -, sent, none, -⟩
  cases none

/-- A refusal among some events is one among the former or one among the latter. -/
theorem refuses_append {first : Nat} {later : List Event} : o.Refuses first (events ++ later)
    ↔ o.Refuses first events ∨ o.Refuses (first + events.length) later := by
  simp only [Refuses, List.zipIdx_append, List.mem_append, or_and_right, exists_or, and_or_left]

/-- Listeners that answer alike refuse alike. -/
theorem refuses_hearing_congr (alike : l.Alike l' events) :
    (o.hearing l).Refuses 0 events ↔ (o.hearing l').Refuses 0 events := by
  have same : ∀ sent ∈ events.zipIdx, l.accepts sent.2 sent.1 = l'.accepts sent.2 sent.1 :=
    fun sent mem => alike sent.2 sent.1 (List.mk_mem_zipIdx_iff_getElem?.1 mem)
  simp only [Refuses, hearing, Option.mem_some_iff, exists_eq_left']
  refine exists_congr fun sent => and_congr_right fun mem => ?_
  rw [same sent mem]

end Options

namespace Search

/-! ## How a search fails -/

/-- How a step ends: with the listener's fault when somebody refused an event, and else with a value.
-/
def Ends (refused : Prop) : Except Fault α → Prop
  | .ok _ => ¬refused
  | .error fault => fault = .refused ∧ refused

/-- A step adds to the events, and fails exactly when somebody refuses one of the new ones. -/
def Breaks (o : Options) (step : Search α) : Prop :=
  ∀ run, ∃ new, (step run).2.events.toList = run.events.toList ++ new ∧
    Ends (o.Refuses run.events.size new) (step run).1

/-- Events that are added have the next numbers. -/
theorem size_of_events {run after : Run} {new : List Event}
    (sent : after.events.toList = run.events.toList ++ new) :
    after.events.size = run.events.size + new.length := by
  rw [← Array.length_toList, sent, List.length_append, Array.length_toList]

theorem breaks_pure (a : α) : Breaks o (pure a) := fun _ =>
  ⟨[], (List.append_nil _).symm, o.not_refuses_nil _⟩

theorem breaks_record (solution : Solution) : Breaks o (record solution) := fun _ =>
  ⟨[], (List.append_nil _).symm, o.not_refuses_nil _⟩

theorem breaks_limitReached : Breaks o (limitReached o) := fun _ =>
  ⟨[], (List.append_nil _).symm, o.not_refuses_nil _⟩

theorem breaks_send (event : Event) : Breaks o (send o event) := by
  intro run
  unfold send
  cases heard : o.listener with
  | none =>
    refine ⟨[], (List.append_nil _).symm, ?_⟩
    exact o.not_refuses_nil _
  | some l =>
    refine ⟨[event], Array.toList_push, ?_⟩
    have refuses : o.Refuses run.events.size [event]
        ↔ l.accepts run.events.size event = false := by
      simp [Options.Refuses, heard]
    rw [refuses]
    cases answer : l.accepts run.events.size event with
    | true => simp [answer, Ends]
    | false => simp [answer, Ends]

/-- Steps one after the other. -/
theorem Breaks.bind {step : Search α} {next : α → Search β} (first : Breaks o step)
    (rest : ∀ a, Breaks o (next a)) : Breaks o (step >>= next) := by
  intro run
  obtain ⟨new, sent, ends⟩ := first run
  rw [bind_apply]
  generalize step run = ran at sent ends ⊢
  obtain ⟨result, after⟩ := ran
  cases result with
  | error fault => exact ⟨new, sent, ends⟩
  | ok a =>
    obtain ⟨new', sent', ends'⟩ := rest a after
    refine ⟨new ++ new', by rw [sent', sent, List.append_assoc], ?_⟩
    rw [Options.refuses_append, ← size_of_events sent, or_iff_right (ends : ¬_)]
    exact ends'

/-- A cleanup after a step. -/
theorem Breaks.ensuring {step : Search α} {cleanup : Search Unit} (inner : Breaks o step)
    (last : Breaks o cleanup) : Breaks o (ensuring step cleanup) := by
  intro run
  obtain ⟨new, sent, ends⟩ := inner run
  unfold Search.ensuring
  generalize step run = ran at sent ends ⊢
  obtain ⟨result, after⟩ := ran
  obtain ⟨new', sent', ends'⟩ := last after
  dsimp only
  generalize cleanup after = cleaned at sent' ends' ⊢
  obtain ⟨answer, after'⟩ := cleaned
  have sentAll : after'.events.toList = run.events.toList ++ (new ++ new') := by
    rw [sent', sent, List.append_assoc]
  cases answer with
  | error fault =>
    refine ⟨new ++ new', sentAll, ?_⟩
    rw [Options.refuses_append, ← size_of_events sent]
    exact ⟨ends'.1, .inr ends'.2⟩
  | ok =>
    refine ⟨new ++ new', sentAll, ?_⟩
    rw [Options.refuses_append, ← size_of_events sent, or_iff_left (ends' : ¬_)]
    exact ends

/-- Rows that are tried in order. -/
theorem Breaks.exploreRows {attempt : Choice Nat → Search Bool} {rows : List (Choice Nat)}
    (each : ∀ r ∈ rows, Breaks o (attempt r)) (found : Bool) :
    Breaks o (exploreRows o attempt found rows) := by
  induction rows generalizing found with
  | nil => exact breaks_pure found
  | cons r rows ih =>
    have rest := ih fun r' hr' => each r' (List.mem_cons_of_mem _ hr')
    refine (each r List.mem_cons_self).bind fun more => ?_
    cases more with
    | false => exact rest found
    | true =>
      refine breaks_limitReached.bind fun full => ?_
      cases full with
      | false => exact rest true
      | true => exact breaks_pure true

/-- A search with room enough fails exactly when somebody refuses an event. -/
theorem explore_breaks {room : Nat} (enough : p.primary.length < room)
    (branch : List (Choice Nat × Nat)) : Breaks o (explore o room p branch) := by
  induction room generalizing p branch with
  | zero => cases enough
  | succ room ih =>
    refine (breaks_send _).bind fun _ => ?_
    cases pivot : p.pivot? o.selector with
    | none =>
      exact (breaks_send _).bind fun _ => (breaks_record _).bind fun _ => breaks_pure true
    | some c =>
      refine (breaks_send _).bind fun _ => (breaks_send _).bind fun _ => ?_
      refine Breaks.ensuring (Breaks.exploreRows (fun r hr => ?_) false) (breaks_send _)
      have used : c ∈ r.columns := by simpa using (List.mem_filter.1 hr).2
      have fewer := Problem.primary_without_lt (Problem.pivot?_mem pivot) used
      exact (breaks_send _).bind fun _ =>
        (ih (by omega) (branch ++ [(r, c)])).ensuring (breaks_send _)

end Search

/-! ## Restoring the matrix -/

namespace Matrix

/-- A search in which every choice of a column was heard is the search of a steady listener, who
refuses the same events. -/
theorem exists_steady (heard : o.HearsChoices (m.solve o).events) :
    ∃ o' : Options, o'.Steady ∧ m.solve o' = m.solve o ∧
      (o'.Refuses 0 (m.solve o).events ↔ o.Refuses 0 (m.solve o).events) := by
  cases listening : o.listener with
  | none => exact ⟨o, by simp [Options.Steady, listening], rfl, .rfl⟩
  | some l =>
    have hears : o.hearing l = o := by rw [Options.hearing, ← listening]
    have alike := heard.alike listening
    have refuses := Options.refuses_hearing_congr (o := o) alike
    rw [hears] at refuses
    refine ⟨o.hearing l.steadied, o.steady_hearing_steadied l, ?_, refuses.symm⟩
    rw [solve_events] at alike
    have follows : Search.Follows l l.steadied _ _ := Search.level_follows (o := o) m.levels []
    rw [hears] at follows
    unfold Matrix.solve
    rw [(follows { matrix := m }).2 alike]

/-- A search with a steady listener fails exactly when an event is refused. -/
theorem Stands.solve_ends (stands : m.Stands p covered) (steady : o.Steady) :
    Search.Ends (o.Refuses 0 (m.solve o).events) (m.solve o).result := by
  obtain ⟨outcome, -, same⟩ := stands.solve_mirrors steady
  obtain ⟨new, sent, ends⟩ := Search.explore_breaks stands.lt_levels [] { matrix := m }
  rw [solve_events, solve_result, outcome, same.events, sent]
  generalize (Search.explore o m.levels (p.without covered) [] { matrix := m }).1 = result at ends ⊢
  cases result with
  | error fault => exact ends
  | ok answer => exact ends

/-- Solving leaves the matrix as it was although the listener breaks the search off, unless an event
that is refused says which column was covered. The search fails exactly when an event is refused, and
with the fault of the listener. -/
theorem solve_restores_refused (built : Built start q) (nested : Nested start covered m)
    (heard : o.HearsChoices (m.solve o).events) :
    ((m.solve o).result = .error .refused ↔ o.Refuses 0 (m.solve o).events) ∧
      (∀ fault, (m.solve o).result = .error fault → fault = .refused) ∧
      (∀ d x, (m.solve o).matrix.mesh.neighbor d x = m.mesh.neighbor d x) ∧
      ∀ x, (m.solve o).matrix.mesh.count x = m.mesh.count x := by
  obtain ⟨p, stands, -⟩ := built.stands nested
  obtain ⟨o', steady, same, refuses⟩ := exists_steady heard
  have ends := stands.solve_ends steady
  rw [same, refuses] at ends
  obtain ⟨-, alike, -⟩ := stands.solve_mirrors steady
  rw [← solve_matrix, same] at alike
  refine ⟨?_, fun fault failed => ?_, fun d x => ?_, fun x => ?_⟩
  · cases ended : (m.solve o).result with
    | error fault =>
      rw [ended] at ends
      obtain ⟨rfl, refused⟩ := ends
      exact iff_of_true rfl refused
    | ok solutions =>
      rw [ended] at ends
      exact iff_of_false nofun ends
  · rw [failed] at ends
    exact ends.1
  · rw [alike.mesh.neighbor]
  · rw [alike.mesh.count]

/-- The ninth event is refused, when two levels have to be left. -/
theorem solve_restores_refused_sample :
    ((sample.hide 4 [5, 6]).solve { listener := some (.refusing 8) }).result = .error .refused ∧
      ∀ d x, ((sample.hide 4 [5, 6]).solve { listener := some (.refusing 8) }).matrix.mesh.neighbor
        d x = (sample.hide 4 [5, 6]).mesh.neighbor d x := by
  obtain ⟨fails, -, links, -⟩ := solve_restores_refused (o := { listener := some (.refusing 8) })
    (m := sample.hide 4 [5, 6]) built_sample (.cover (c := 4) .start rfl) (by decide +kernel)
  exact ⟨fails.2 (by decide +kernel), links⟩

/-- The third event says that the column `B` was covered. It is refused, and the column stays
covered. -/
theorem not_restored_refused_choice :
    (sample.solve { listener := some (.refusing 2) }).result.isOk = false ∧
      (sample.solve { listener := some (.refusing 2) }).matrix.mesh.neighbor .right 2
        ≠ sample.mesh.neighbor .right 2 := by
  decide +kernel

end Matrix

end DancingLinks
