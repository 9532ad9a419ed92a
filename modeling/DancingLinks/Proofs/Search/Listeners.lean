import DancingLinks.Proofs.Search.Simulation

/-!
# What a search owes to its listener

A search looks at its listener only through the answers to the events that it sends. So listeners
that answer the events of a run alike make the same run (`level_follows`). In particular a run in
which nobody refused to hear which column was covered is one of a listener who never does
(`HearsChoices.alike`).
-/

namespace DancingLinks

variable {α β : Type} {o : Options} {l l' : Listener} {events before : List Event}

/-! ## Listeners -/

/-- The event says which column was covered. -/
def Event.isChoice : Event → Bool
  | chose .. => true
  | _ => false

/-- The listener that refuses the same events, but hears every choice of a column. -/
def Listener.steadied (l : Listener) : Listener :=
  ⟨fun number event => event.isChoice || l.accepts number event⟩

/-- The listeners give the same answers to some events, each with its number in the run. -/
def Listener.Alike (l l' : Listener) (events : List Event) : Prop :=
  ∀ number event, events[number]? = some event →
    l.accepts number event = l'.accepts number event

/-- What was answered alike in a run was answered alike up to any point of it. -/
theorem Listener.Alike.of_isPrefix (alike : l.Alike l' events) (earlier : before <+: events) :
    l.Alike l' before := by
  intro number event sent
  obtain ⟨later, rfl⟩ := earlier
  obtain ⟨lt, -⟩ := List.getElem?_eq_some_iff.1 sent
  exact alike number event ((List.getElem?_append_left lt).trans sent)

namespace Options

/-- The same search for another listener. -/
def hearing (o : Options) (l : Listener) : Options := { o with listener := some l }

/-- Of some events, each with its number in the run, nobody refuses one that says which column was
covered. -/
def HearsChoices (o : Options) (events : List Event) : Prop :=
  ∀ listener ∈ o.listener, ∀ sent ∈ events.zipIdx,
    sent.1.isChoice = true → listener.accepts sent.2 sent.1 = true

instance (o : Options) (events : List Event) : Decidable (o.HearsChoices events) :=
  inferInstanceAs (Decidable (∀ listener ∈ o.listener, _))

theorem steady_hearing_steadied (o : Options) (l : Listener) : (o.hearing l.steadied).Steady := by
  rintro listener ⟨⟩ number level column
  rfl

/-- A listener that heard every choice of a run has answered like its steady counterpart. -/
theorem HearsChoices.alike (heard : o.HearsChoices events) (listening : o.listener = some l) :
    l.Alike l.steadied events := by
  intro number event sent
  have hears := heard l listening (event, number) (List.mk_mem_zipIdx_iff_getElem?.2 sent)
  cases event with
  | chose level column => exact hears rfl
  | _ => rfl

end Options

namespace Search

/-! ## Runs that are heard alike -/

/-- A step adds to the events, and for a listener that answers these events alike the other step does
the same. -/
def Follows (l l' : Listener) (step step' : Search α) : Prop :=
  ∀ run, run.events.toList <+: (step run).2.events.toList ∧
    (l.Alike l' (step run).2.events.toList → step' run = step run)

/-- A step that sends nothing. -/
theorem follows_of_quiet {step : Search α} (quiet : ∀ run, (step run).2.events = run.events) :
    Follows l l' step step :=
  fun run => ⟨quiet run ▸ List.prefix_rfl, fun _ => rfl⟩

/-- Whether an event is refused depends on the answer to this event alone. -/
theorem follows_send (event : Event) :
    Follows l l' (send (o.hearing l) event) (send (o.hearing l') event) := by
  intro run
  have sent : (send (o.hearing l) event run).2.events.toList = run.events.toList ++ [event] :=
    Array.toList_push
  refine ⟨⟨[event], sent.symm⟩, fun alike => ?_⟩
  have answer : l.accepts run.events.size event = l'.accepts run.events.size event := by
    refine alike _ event ?_
    rw [sent, ← Array.length_toList, List.getElem?_concat_length]
  simp only [send, Options.hearing, answer]

/-- Steps one after the other. -/
theorem Follows.bind {step step' : Search α} {next next' : α → Search β}
    (first : Follows l l' step step') (rest : ∀ a, Follows l l' (next a) (next' a)) :
    Follows l l' (step >>= next) (step' >>= next') := by
  intro run
  obtain ⟨grows, same⟩ := first run
  rw [bind_apply, bind_apply]
  generalize step run = ran at grows same ⊢
  obtain ⟨result, after⟩ := ran
  cases result with
  | error fault => exact ⟨grows, fun alike => by rw [same alike]⟩
  | ok a =>
    obtain ⟨grows', same'⟩ := rest a after
    refine ⟨grows.trans grows', fun alike => ?_⟩
    rw [same (alike.of_isPrefix grows')]
    exact same' alike

/-- A cleanup after a step. -/
theorem Follows.ensuring {step step' : Search α} {cleanup cleanup' : Search Unit}
    (inner : Follows l l' step step') (last : Follows l l' cleanup cleanup') :
    Follows l l' (ensuring step cleanup) (ensuring step' cleanup') := by
  intro run
  obtain ⟨grows, same⟩ := inner run
  unfold Search.ensuring
  generalize step run = ran at grows same ⊢
  obtain ⟨result, after⟩ := ran
  obtain ⟨grows', same'⟩ := last after
  dsimp only
  generalize cleanup after = cleaned at grows' same' ⊢
  obtain ⟨answer, after'⟩ := cleaned
  cases answer with
  | error fault =>
    refine ⟨grows.trans grows', fun alike => ?_⟩
    simp only [same (alike.of_isPrefix grows'), same' alike]
  | ok =>
    refine ⟨grows.trans grows', fun alike => ?_⟩
    simp only [same (alike.of_isPrefix grows'), same' alike]

/-! ## Steps that send nothing -/

theorem follows_pure (a : α) : Follows l l' (pure a) (pure a) := follows_of_quiet fun _ => rfl

theorem follows_ask (question : Matrix → Except Fault α) :
    Follows l l' (ask question) (ask question) := follows_of_quiet fun _ => rfl

theorem events_cover (c : Nat) (run : Run) : (cover c run).2.events = run.events := by
  unfold cover
  split
  · rfl
  · rfl

theorem events_uncover (c : Nat) (run : Run) : (uncover c run).2.events = run.events := by
  unfold uncover
  split
  · rfl
  · rfl

theorem events_coverEach (covered cs : List Nat) (run : Run) :
    (coverEach covered cs run).2.events = run.events := by
  induction cs generalizing covered run with
  | nil => rfl
  | cons c cs ih =>
    have first := events_cover c run
    unfold coverEach
    generalize cover c run = ran at first ⊢
    obtain ⟨result, after⟩ := ran
    cases result with
    | error fault => exact first
    | ok => exact (ih (c :: covered) after).trans first

theorem follows_uncoverEach (cs : List Nat) : Follows l l' (uncoverEach cs) (uncoverEach cs) := by
  induction cs with
  | nil => exact follows_pure ()
  | cons c cs ih => exact (follows_of_quiet (events_uncover c)).bind fun _ => ih

/-! ## The search -/

/-- A row that is tried. -/
theorem Follows.tryRow {below below' : Search Bool} (inner : Follows l l' below below')
    (level entry : Nat) :
    Follows l l' (tryRow (o.hearing l) level below entry)
      (tryRow (o.hearing l') level below' entry) := by
  refine (follows_send _).bind fun _ => (follows_ask _).bind fun columns => ?_
  refine (follows_of_quiet (events_coverEach [] columns)).bind fun ⟨covered, outcome⟩ => ?_
  refine Follows.ensuring ?_ ((follows_uncoverEach covered).bind fun _ => follows_send _)
  cases outcome with
  | ok => exact inner
  | error fault => exact follows_of_quiet fun _ => rfl

/-- Rows that are tried in order. -/
theorem Follows.tryRows {attempt attempt' : Nat → Search Bool}
    (each : ∀ entry, Follows l l' (attempt entry) (attempt' entry)) (found : Bool)
    (entries : List Nat) :
    Follows l l' (tryRows (o.hearing l) attempt found entries)
      (tryRows (o.hearing l') attempt' found entries) := by
  induction entries generalizing found with
  | nil => exact follows_pure found
  | cons entry entries ih =>
    refine (each entry).bind fun more => ?_
    cases more with
    | false => exact ih found
    | true =>
      have limited : Follows l l' (limitReached o) (limitReached o) :=
        follows_of_quiet fun _ => rfl
      refine limited.bind fun full => ?_
      cases full with
      | false => exact ih true
      | true => exact follows_pure true

/-- A level of the search is the same for any listener that answers its events alike. -/
theorem level_follows (room : Nat) (progress : List Nat) :
    Follows l l' (level (o.hearing l) room progress) (level (o.hearing l') room progress) := by
  induction room generalizing progress with
  | zero => exact follows_of_quiet fun _ => rfl
  | succ room ih =>
    refine (follows_send _).bind fun _ => (follows_ask _).bind fun empty => ?_
    cases empty with
    | true =>
      refine (follows_send _).bind fun _ => (follows_ask _).bind fun solution => ?_
      exact (follows_of_quiet fun _ => rfl).bind fun _ => follows_pure true
    | false =>
      refine Follows.bind ?_ fun _ => (follows_ask _).bind fun column => ?_
      · exact (follows_ask _).bind fun _ => (follows_ask _).bind fun _ => follows_send _
      refine (follows_of_quiet (events_cover column)).bind fun _ => (follows_send _).bind fun _ => ?_
      refine Follows.ensuring ((follows_ask _).bind fun entries => ?_)
        ((follows_of_quiet (events_uncover column)).bind fun _ => follows_send _)
      exact Follows.tryRows (fun entry => (ih _).tryRow _ entry) false entries

end Search

end DancingLinks
