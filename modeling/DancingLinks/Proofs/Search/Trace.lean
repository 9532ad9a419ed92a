import DancingLinks.Proofs.Search.Explore
import DancingLinks.Search.Trace

/-!
# What a search tells

What a collecting listener hears of a search is a word of the grammar `Trace`, and the solutions
that it hears of are those that are recorded. `Search.Tells` says so of a step that starts before
the limit is reached, whatever came before it, and has a rule for every way to put steps together.
When the limit is reached inside a level its closing events are still sent, so the word is one of
the grammar all the same (`Search.explore_tells`).
-/

namespace DancingLinks

variable {α : Type} {o : Options} {say : Event → α} {event : Event} {words words' : List Event}
  {solutions solutions' : List Solution} {Word Word' : List Event → Prop}

/-- Somebody listens, and refuses nothing. -/
structure Options.Collecting (o : Options) : Prop where
  heard : o.listener.isSome = true
  patient : o.Patient

/-- The events say which solutions were found: by the entry of each row in the column that was
branched on. -/
def Reports (events : List Event) (solutions : List Solution) : Prop :=
  (events.filterMap Event.progress?).map (List.map some) = solutions.map Solution.pivots

theorem Reports.append (first : Reports words solutions) (rest : Reports words' solutions') :
    Reports (words ++ words') (solutions ++ solutions') := by
  rw [Reports, List.filterMap_append, List.map_append, List.map_append, first, rest]

theorem reports_silent (silent : event.progress? = none) : Reports [event] [] := by
  rw [Reports, List.filterMap_cons_none silent]
  rfl

/-- What is heard of one row that is tried. -/
def RowWord (say : Event → α) (level : Nat) (words : List Event) : Prop :=
  ∃ entry below, Trace say (level + 1) (below.map say) ∧
    words = [.adding level entry] ++ below ++ [.removing level entry]

namespace Search

/-- A step that starts before the limit is reached comes to its end. What it sends is of some form
and reports what it finds; the answer is not no when the limit was reached meanwhile. -/
def Tells (o : Options) (step : Search Bool) (Word : List Event → Prop) : Prop :=
  ∀ run, o.reached run.found.size = false → ∃ answer run' words solutions,
    step run = (.ok answer, run') ∧ run'.events.toList = run.events.toList ++ words ∧
      run'.found.toList = run.found.toList ++ solutions ∧ Word words ∧ Reports words solutions ∧
      (answer = false → o.reached run'.found.size = false)

theorem Tells.imp {step : Search Bool} (tells : Tells o step Word)
    (form : ∀ words, Word words → Word' words) : Tells o step Word' := by
  intro run open_
  obtain ⟨answer, run', words, solutions, ends, events, found, word, reports, missed⟩ :=
    tells run open_
  exact ⟨answer, run', words, solutions, ends, events, found, form words word, reports, missed⟩

/-- An event is heard. -/
theorem send_collecting (collecting : o.Collecting) (event : Event) (run : Run) :
    send o event run = (.ok (), { run with events := run.events.push event }) := by
  unfold send
  cases listening : o.listener with
  | none =>
    have heard := collecting.heard
    rw [listening] at heard
    cases heard
  | some listener => simp only [collecting.patient listener listening, if_true]

/-- An event before a step. -/
theorem Tells.send {step : Search Bool} (tells : Tells o step Word) (collecting : o.Collecting)
    (silent : event.progress? = none) :
    Tells o (Search.send o event >>= fun _ => step)
      fun words => ∃ rest, Word rest ∧ words = [event] ++ rest := by
  intro run open_
  obtain ⟨answer, run', words, solutions, ends, events, found, word, reports, missed⟩ :=
    tells { run with events := run.events.push event } open_
  refine ⟨answer, run', [event] ++ words, solutions, ?_, ?_, found, ⟨words, word, rfl⟩,
    (reports_silent silent).append reports, missed⟩
  · rw [bind_apply, send_collecting collecting]
    exact ends
  · rw [events, Array.toList_push, List.append_assoc]

/-- An event after a step. -/
theorem Tells.ensuring {step : Search Bool} (tells : Tells o step Word)
    (collecting : o.Collecting) (silent : event.progress? = none) :
    Tells o (ensuring step (Search.send o event))
      fun words => ∃ rest, Word rest ∧ words = rest ++ [event] := by
  intro run open_
  obtain ⟨answer, run', words, solutions, ends, events, found, word, reports, missed⟩ :=
    tells run open_
  refine ⟨answer, { run' with events := run'.events.push event }, words ++ [event], solutions, ?_,
    ?_, found, ⟨words, word, rfl⟩, ?_, missed⟩
  · simp only [Search.ensuring, ends, send_collecting collecting]
  · rw [Array.toList_push, events, List.append_assoc]
  · exact List.append_nil solutions ▸ reports.append (reports_silent silent)

/-- A solution that is found is reported by the entries that were chosen. -/
theorem tells_found (collecting : o.Collecting) {branch : List (Choice Nat × Nat)}
    (used : ∀ b ∈ branch, b.2 ∈ b.1.columns) (depth : Nat) :
    Tells o
      (do send o (.found depth (branch.map fun b => b.1.node b.2))
          record (.ofBranch branch)
          return true)
      (· = [.found depth (branch.map fun b => b.1.node b.2)]) := by
  intro run _
  refine ⟨true,
    ⟨run.matrix, run.found.push (.ofBranch branch),
      run.events.push (.found depth (branch.map fun b => b.1.node b.2))⟩,
    _, [.ofBranch branch], ?_, Array.toList_push, Array.toList_push, rfl, ?_, nofun⟩
  · rw [bind_apply, send_collecting collecting]
    rfl
  · have heads : (Solution.ofBranch branch).pivots = branch.map fun b => some (b.1.node b.2) := by
      rw [Solution.pivots, Solution.ofBranch, List.map_map]
      refine List.map_congr_left fun b hb => ?_
      rw [Function.comp_apply, Choice.nodesFrom, Choice.columns_startingAt (used b hb)]
      rfl
    simp only [Reports, List.map_cons, List.map_nil, heads]
    simp [Event.progress?]

/-- A row that is tried. -/
theorem Tells.row {below : Search Bool} {level : Nat}
    (tells : Tells o below fun words => Trace say (level + 1) (words.map say))
    (collecting : o.Collecting) (entry : Nat) :
    Tells o
      (do Search.send o (.adding level entry)
          Search.ensuring below (Search.send o (.removing level entry)))
      (RowWord say level) := by
  refine ((tells.ensuring collecting rfl).send collecting rfl).imp ?_
  rintro words ⟨-, ⟨below, trace, rfl⟩, rfl⟩
  exact ⟨entry, below, trace, rfl⟩

/-- Rows that are tried until the limit is reached. -/
theorem tells_rows {attempt : Choice Nat → Search Bool} {rows : List (Choice Nat)} {level : Nat}
    (tells : ∀ r ∈ rows, Tells o (attempt r) (RowWord say level)) (before : Bool) :
    Tells o (exploreRows o attempt before rows)
      fun words => RowTraces say level (words.map say) := by
  induction rows generalizing before with
  | nil =>
    exact fun run open_ => ⟨before, run, [], [], rfl, (List.append_nil _).symm,
      (List.append_nil _).symm, .done level, rfl, fun _ => open_⟩
  | cons r rows ih =>
    have rest := ih fun r' hr' => tells r' (List.mem_cons_of_mem _ hr')
    intro run open_
    obtain ⟨answer, run₁, words, solutions, tried, events, found, ⟨entry, below, trace, rfl⟩,
      reports, missed⟩ := tells r List.mem_cons_self run open_
    have goOn : ∀ before', o.reached run₁.found.size = false →
        exploreRows o attempt before (r :: rows) run = exploreRows o attempt before' rows run₁ →
        ∃ answer run' words solutions, exploreRows o attempt before (r :: rows) run
            = (.ok answer, run') ∧ run'.events.toList = run.events.toList ++ words ∧
          run'.found.toList = run.found.toList ++ solutions ∧ RowTraces say level (words.map say) ∧
          Reports words solutions ∧ (answer = false → o.reached run'.found.size = false) := by
      intro before' open' same
      obtain ⟨answer', run₂, words', solutions', ends, events', found', traces, reports',
        missed'⟩ := rest before' run₁ open'
      refine ⟨answer', run₂, _, solutions ++ solutions', same.trans ends, ?_, ?_, ?_,
        reports.append reports', missed'⟩
      · rw [events', events, List.append_assoc]
      · rw [found', found, List.append_assoc]
      · simp only [List.map_append, List.map_cons, List.map_nil]
        exact .tried level entry trace traces
    have limited : limitReached o run₁ = (.ok (o.reached run₁.found.size), run₁) := rfl
    cases answer with
    | false => exact goOn before (missed rfl) (by simp [exploreRows, bind_apply, tried])
    | true =>
      cases full : o.reached run₁.found.size with
      | false => exact goOn true full (by simp [exploreRows, bind_apply, tried, limited, full])
      | true =>
        refine ⟨true, run₁, _, solutions, ?_, events, found, ?_, reports, fun on => by cases on⟩
        · simp [exploreRows, bind_apply, tried, limited, full, pure_apply]
        · have last := RowTraces.tried level entry trace (.done level)
          simpa using last

/-- A level of the search, with room enough. -/
theorem explore_tells (collecting : o.Collecting) {room : Nat} {p : Problem Nat}
    (enough : p.primary.length < room) {branch : List (Choice Nat × Nat)}
    (used : ∀ b ∈ branch, b.2 ∈ b.1.columns) :
    Tells o (explore o room p branch) fun words => Trace say branch.length (words.map say) := by
  induction room generalizing p branch with
  | zero => cases enough
  | succ room ih =>
    rw [explore]
    cases pivot : p.pivot? o.selector with
    | none =>
      refine ((tells_found collecting used _).send collecting rfl).imp ?_
      rintro words ⟨rest, rfl, rfl⟩
      exact .found ..
    | some c =>
      have attempts : ∀ r ∈ p.choices.filter (c ∈ ·.columns), Tells o
          (do send o (.adding branch.length (r.node c))
              ensuring (explore o room (p.without r.columns) (branch ++ [(r, c)]))
                (send o (.removing branch.length (r.node c))))
          (RowWord say branch.length) := by
        intro r hr
        have hc : c ∈ r.columns := by simpa using (List.mem_filter.1 hr).2
        have fewer := Problem.primary_without_lt (Problem.pivot?_mem pivot) hc
        have chosen : ∀ b ∈ branch ++ [(r, c)], b.2 ∈ b.1.columns :=
          List.forall_mem_append.2 ⟨used, List.forall_mem_singleton.2 hc⟩
        have below := ih (p := p.without r.columns) (by omega) chosen
        rw [List.length_append] at below
        exact below.row collecting _
      refine ((((tells_rows attempts false).ensuring collecting rfl).send collecting rfl).send
        collecting rfl).send collecting rfl |>.imp ?_
      rintro words ⟨-, ⟨-, ⟨-, ⟨rows, traces, rfl⟩, rfl⟩, rfl⟩, rfl⟩
      simpa using Trace.branch branch.length c p.primary p.secondary traces

end Search

end DancingLinks
