import DancingLinks.Proofs.Search.Solve
import DancingLinks.Proofs.Search.Trace

/-!
# What a limited search tells

A search with a limit does what the search without it does, until the limit is reached. From there
on it only ends what had begun (`Search.Curtails`). With what every search tells (`Search.Tells`)
this gives the trace of a search on a matrix (`Matrix.solve_tells`).
-/

namespace DancingLinks

variable {o : Options} {event : Event} {events full : List Event}

/-- The same search without a limit. -/
def Options.unlimited (o : Options) : Options := { o with limit := none }

theorem Options.Collecting.unlimited (collecting : o.Collecting) : o.unlimited.Collecting :=
  ⟨collecting.heard, collecting.patient⟩

/-- The events are some of the full trace, up to a solution, and then such as end what had begun. -/
def CutShort (events full : List Event) : Prop :=
  ∃ before level progress closing more, events = before ++ .found level progress :: closing ∧
    full = before ++ .found level progress :: more ∧ ∀ e ∈ closing, e.closes = true

theorem CutShort.more (cut : CutShort events full) (later : List Event) :
    CutShort events (full ++ later) := by
  obtain ⟨before, level, progress, closing, more, rfl, rfl, closes⟩ := cut
  exact ⟨before, level, progress, closing, more ++ later, rfl, by simp, closes⟩

theorem CutShort.close (cut : CutShort events full) (closes : event.closes = true) :
    CutShort (events ++ [event]) (full ++ [event]) := by
  obtain ⟨before, level, progress, closing, more, rfl, rfl, closed⟩ := cut
  refine ⟨before, level, progress, closing ++ [event], more ++ [event], by simp, by simp, ?_⟩
  intro e mem
  rcases List.mem_append.1 mem with mem | mem
  · exact closed e mem
  · rw [List.mem_singleton.1 mem]
    exact closes

/-- What ends something tells of no solution. -/
theorem filterMap_closing (closes : ∀ e ∈ events, e.closes = true) :
    events.filterMap Event.progress? = [] := by
  refine List.filterMap_eq_nil_iff.2 fun e mem => ?_
  have closing := closes e mem
  cases e with
  | found level progress => cases closing
  | _ => rfl

theorem Reports.length_eq {solutions : List Solution} (reports : Reports events solutions) :
    (events.filterMap Event.progress?).length = solutions.length := by
  have lengths := congrArg List.length reports
  rwa [List.length_map, List.length_map] at lengths

theorem Options.length_cut_le {α : Type} {xs : List α} {limit : Limit}
    (limited : o.limit = some limit) : (o.cut xs).length ≤ limit.count := by
  rw [Options.cut, limited]
  exact List.length_take_le _ _

namespace Search

/-- From the same solutions and events, and before the limit is reached, a step does what another
does without a limit, or else it reaches the limit and is cut short. -/
def Curtails (o : Options) (step step' : Search Bool) : Prop :=
  ∀ run run', run.Same run' → o.reached run.found.size = false →
    ∃ answer answer' after after', step run = (.ok answer, after) ∧
      step' run' = (.ok answer', after') ∧
      (answer = answer' ∧ after.Same after' ∧ o.reached after.found.size = false ∨
        answer = true ∧ o.reached after.found.size = true ∧
          CutShort after.events.toList after'.events.toList)

/-- An event before a step. -/
theorem Curtails.send {step step' : Search Bool} (curtails : Curtails o step step')
    (collecting : o.Collecting) (event : Event) :
    Curtails o (send o event >>= fun _ => step) (send o.unlimited event >>= fun _ => step') := by
  intro run run' same open_
  rw [bind_apply, send_collecting collecting, bind_apply, send_collecting collecting.unlimited]
  exact curtails _ _ ⟨same.found, congrArg (·.push event) same.events⟩ open_

/-- An event after a step, which ends what had begun. -/
theorem Curtails.ensuring {step step' : Search Bool} (curtails : Curtails o step step')
    (collecting : o.Collecting) (closes : event.closes = true) :
    Curtails o (ensuring step (Search.send o event))
      (ensuring step' (Search.send o.unlimited event)) := by
  intro run run' same open_
  obtain ⟨answer, answer', after, after', ends, ends', related⟩ := curtails run run' same open_
  refine ⟨answer, answer', { after with events := after.events.push event },
    { after' with events := after'.events.push event }, ?_, ?_, ?_⟩
  · simp only [Search.ensuring, ends, send_collecting collecting]
  · simp only [Search.ensuring, ends', send_collecting collecting.unlimited]
  · rcases related with ⟨agree, same, open_⟩ | ⟨found, full, cut⟩
    · exact .inl ⟨agree, ⟨same.found, congrArg (·.push event) same.events⟩, open_⟩
    · refine .inr ⟨found, full, ?_⟩
      rw [Array.toList_push, Array.toList_push]
      exact cut.close closes

/-- The solution that is found may be the one at which the limit is reached. -/
theorem curtails_found (collecting : o.Collecting) (depth : Nat) (progress : List Nat)
    (solution : Solution) :
    Curtails o (do Search.send o (.found depth progress); record solution; return true)
      (do Search.send o.unlimited (.found depth progress); record solution; return true) := by
  intro run run' same open_
  rw [bind_apply, send_collecting collecting, bind_apply, send_collecting collecting.unlimited]
  refine ⟨true, true, _, _, rfl, rfl, ?_⟩
  have same' : Run.Same
      ⟨run.matrix, run.found.push solution, run.events.push (.found depth progress)⟩
      ⟨run'.matrix, run'.found.push solution, run'.events.push (.found depth progress)⟩ :=
    ⟨congrArg (·.push solution) same.found, congrArg (·.push (.found depth progress)) same.events⟩
  cases o.reached (run.found.push solution).size with
  | false => exact .inl ⟨rfl, same', rfl⟩
  | true =>
    refine .inr ⟨rfl, rfl, run.events.toList, depth, progress, [], [], ?_, ?_, nofun⟩
    · exact Array.toList_push
    · rw [same.events]
      exact Array.toList_push

/-- Rows that are tried in order. The search without a limit tries them all. -/
theorem Curtails.rows {attempt attempt' : Choice Nat → Search Bool} {rows : List (Choice Nat)}
    (level : Nat) (curtails : ∀ r ∈ rows, Curtails o (attempt r) (attempt' r))
    (tells : ∀ r ∈ rows, Tells o.unlimited (attempt' r) (RowWord id level)) (before : Bool) :
    Curtails o (exploreRows o attempt before rows)
      (exploreRows o.unlimited attempt' before rows) := by
  induction rows generalizing before with
  | nil =>
    intro run run' same open_
    exact ⟨before, before, run, run', rfl, rfl, .inl ⟨rfl, same, open_⟩⟩
  | cons r rows ih =>
    have rest := ih (fun r' hr' => curtails r' (List.mem_cons_of_mem _ hr'))
      fun r' hr' => tells r' (List.mem_cons_of_mem _ hr')
    intro run run' same open_
    obtain ⟨answer, answer', after, after', tried, tried', related⟩ :=
      curtails r List.mem_cons_self run run' same open_
    have limited : limitReached o after = (.ok (o.reached after.found.size), after) := rfl
    have unlimited : limitReached o.unlimited after' = (.ok false, after') := rfl
    rcases related with ⟨rfl, same, open_⟩ | ⟨rfl, full, cut⟩
    · cases answer with
      | false =>
        simpa [exploreRows, bind_apply, tried, tried'] using rest before after after' same open_
      | true =>
        simpa [exploreRows, bind_apply, tried, tried', limited, unlimited, open_]
          using rest true after after' same open_
    · have others := tells_rows (fun r' hr' => tells r' (List.mem_cons_of_mem _ hr'))
      have goesOn : ∃ before', exploreRows o.unlimited attempt' before (r :: rows) run'
          = exploreRows o.unlimited attempt' before' rows after' := by
        cases answer' with
        | false => exact ⟨before, by simp [exploreRows, bind_apply, tried']⟩
        | true => exact ⟨true, by simp [exploreRows, bind_apply, tried', unlimited]⟩
      obtain ⟨before', same⟩ := goesOn
      obtain ⟨answer₂, after₂, words, -, ends, events, -⟩ := others before' after' rfl
      refine ⟨true, answer₂, after, after₂, ?_, same.trans ends, .inr ⟨rfl, full, ?_⟩⟩
      · simp [exploreRows, bind_apply, tried, limited, full, pure_apply]
      · rw [events]
        exact cut.more words

/-- A level of the search, with room enough. -/
theorem explore_curtails (collecting : o.Collecting) {room : Nat} {p : Problem Nat}
    (enough : p.primary.length < room) {branch : List (Choice Nat × Nat)}
    (used : ∀ b ∈ branch, b.2 ∈ b.1.columns) :
    Curtails o (explore o room p branch) (explore o.unlimited room p branch) := by
  induction room generalizing p branch with
  | zero => cases enough
  | succ room ih =>
    rw [explore, explore]
    refine Curtails.send ?_ collecting _
    have selector : o.unlimited.selector = o.selector := rfl
    rw [selector]
    cases pivot : p.pivot? o.selector with
    | none => exact curtails_found collecting _ _ _
    | some c =>
      refine ((Curtails.ensuring ?_ collecting rfl).send collecting _).send collecting _
      have hc : ∀ r ∈ p.choices.filter (c ∈ ·.columns), c ∈ r.columns := fun r hr => by
        simpa using (List.mem_filter.1 hr).2
      have fewer : ∀ r ∈ p.choices.filter (c ∈ ·.columns),
          (p.without r.columns).primary.length < room := fun r hr => by
        have := Problem.primary_without_lt (Problem.pivot?_mem pivot) (hc r hr)
        omega
      have chosen : ∀ r ∈ p.choices.filter (c ∈ ·.columns),
          ∀ b ∈ branch ++ [(r, c)], b.2 ∈ b.1.columns := fun r hr =>
        List.forall_mem_append.2 ⟨used, List.forall_mem_singleton.2 (hc r hr)⟩
      refine Curtails.rows branch.length (fun r hr => ?_) (fun r hr => ?_) false
      · exact ((ih (fewer r hr) (chosen r hr)).ensuring collecting rfl).send collecting _
      · have below : Tells o.unlimited _ fun words => Trace id _ (words.map id) :=
          explore_tells collecting.unlimited (fewer r hr) (chosen r hr)
        rw [List.length_append] at below
        exact below.row collecting.unlimited _

end Search

namespace Matrix

variable {m start : Matrix} {p : Problem Nat} {q : Problem String} {covered : List Nat}

/-- A search ends with what one without links finds, and sends the same. -/
theorem Stands.solve_explores (stands : m.Stands p covered) (patient : o.Patient) :
    let explored := Search.explore o m.levels (p.without covered) [] { matrix := m }
    (m.solve o).result = explored.1.map (fun _ => explored.2.found.toList) ∧
      (m.solve o).events = explored.2.events.toList := by
  obtain ⟨outcome, -, same⟩ := stands.solve_mirrors patient.steady
  rw [solve_result, solve_events, outcome, same.found, same.events]
  exact ⟨rfl, rfl⟩

end Matrix

end DancingLinks
