import DancingLinks.Proofs.Matrix.Balanced

/-!
# Attempted steps

Covers and uncovers in any order, those that are refused passed over (`attempts`). A column counts
as covered when one more cover of it was accepted than uncovers (`balance`).

Nothing keeps that count: a column is taken for covered when its left neighbour does not lead back
to it. As long as every accepted uncover undoes the latest cover still in force (`Orderly`), the
links tell the count: exactly the columns that do not count as covered may be covered, and exactly
the others uncovered (`attempts_answered`). Then also a column that was not covered last is
uncovered without complaint, and from there on the links may tell something else: the column itself
and its right neighbour read as not covered, and every other column that has the same left neighbour
as covered.
-/

namespace DancingLinks.Matrix

variable {m m' start : Matrix} {p : Problem Nat} {q : Problem String}
  {covered inForce : List Nat} {steps : List Step} {s : Step} {c d : Nat}

/-! ## Steps that may be refused -/

/-- The matrix after some steps, the refused ones passed over. -/
def attempts (m : Matrix) (steps : List Step) : Matrix := steps.foldl attempt m

/-- How many more covers than uncovers of a column one step is. -/
def Step.gain (c : Nat) : Step → Int
  | .cover d => if d = c then 1 else 0
  | .uncover d => if d = c then -1 else 0

/-- How many more covers than uncovers of a column are accepted. -/
def balance (m : Matrix) (c : Nat) : List Step → Int
  | [] => 0
  | s :: steps => (if (m.step s).isOk then s.gain c else 0) + (m.attempt s).balance c steps

/-- Every uncover that is accepted undoes the latest cover still in force. -/
inductive Orderly : Matrix → (inForce : List Nat) → List Step → Prop
  /-- Nothing more is done. -/
  | done {m : Matrix} {inForce : List Nat} : Orderly m inForce []
  /-- A refused step changes nothing. -/
  | refused {m : Matrix} {inForce : List Nat} {steps : List Step} {s : Step} {fault : Fault} :
      m.step s = .error fault → Orderly m inForce steps → Orderly m inForce (s :: steps)
  /-- One more cover is in force. -/
  | cover {m m' : Matrix} {inForce : List Nat} {steps : List Step} {c : Nat} :
      m.step (.cover c) = .ok m' → Orderly m' (c :: inForce) steps →
      Orderly m inForce (.cover c :: steps)
  /-- The latest cover in force is undone. -/
  | uncover {m m' : Matrix} {inForce : List Nat} {steps : List Step} {c : Nat} :
      m.step (.uncover c) = .ok m' → Orderly m' inForce steps →
      Orderly m (c :: inForce) (.uncover c :: steps)

theorem attempt_of_ok (done : m.step s = .ok m') : m.attempt s = m' := by
  rw [attempt, done]

theorem attempt_of_error {fault : Fault} (refused : m.step s = .error fault) :
    m.attempt s = m := by
  rw [attempt, refused]

theorem balance_of_ok (done : m.step s = .ok m') :
    m.balance c (s :: steps) = s.gain c + m'.balance c steps := by
  rw [balance, attempt_of_ok done, done]
  rfl

theorem balance_of_error {fault : Fault} (refused : m.step s = .error fault) :
    m.balance c (s :: steps) = m.balance c steps := by
  rw [balance, attempt_of_error refused, refused]
  exact Int.zero_add _

/-- Orderly steps keep the covers nested, and every column is in force as often as its balance
says. -/
theorem Orderly.nested (orderly : Orderly m inForce steps) (nested : Nested start inForce m) :
    ∃ covered, Nested start covered (m.attempts steps) ∧
      ∀ c, (covered.count c : Int) = inForce.count c + m.balance c steps := by
  induction orderly with
  | done => exact ⟨_, nested, fun c => (Int.add_zero _).symm⟩
  | refused refused _ ih =>
    obtain ⟨covered, after, counts⟩ := ih nested
    rw [attempts, List.foldl_cons, attempt_of_error refused]
    refine ⟨covered, after, fun c => ?_⟩
    rw [balance_of_error refused, counts]
  | @cover m m' inForce steps d done _ ih =>
    obtain ⟨covered, after, counts⟩ := ih (nested.cover done)
    rw [attempts, List.foldl_cons, attempt_of_ok done]
    refine ⟨covered, after, fun c => ?_⟩
    rw [balance_of_ok done, counts, List.count_cons, Step.gain]
    simp only [beq_iff_eq]
    split <;> omega
  | @uncover m m' inForce steps d done _ ih =>
    obtain ⟨covered, after, counts⟩ := ih (nested.uncover done)
    rw [attempts, List.foldl_cons, attempt_of_ok done]
    refine ⟨covered, after, fun c => ?_⟩
    rw [balance_of_ok done, counts, List.count_cons, Step.gain]
    simp only [beq_iff_eq]
    split <;> omega

/-- The columns in force are those that count as covered. -/
theorem Orderly.mem_iff (built : Built start q) (orderly : Orderly start [] steps) :
    ∃ covered, Nested start covered (start.attempts steps) ∧
      ∀ c, c ∈ covered ↔ start.balance c steps = 1 := by
  obtain ⟨covered, nested, counts⟩ := orderly.nested .start
  obtain ⟨stands, -⟩ := built.stands_numbered nested
  refine ⟨covered, nested, fun c => ?_⟩
  have count := counts c
  rw [stands.shows.covered_nodup.count, List.count_nil] at count
  split at count
  · next mem => exact ⟨fun _ => by omega, fun _ => mem⟩
  · next out => exact ⟨fun mem => absurd mem out, fun one => by omega⟩

/-! ## What is answered -/

/-- A covered column is not covered again. -/
theorem Stands.cover_refused (stands : m.Stands p covered) (mem : c ∈ covered) :
    m.cover c = .error (.alreadyCovered (m.mesh.shown c)) := by
  rw [Matrix.cover, coverPlan, stands.isCovered_eq (stands.shows.covered_mem c mem),
    decide_eq_true mem]
  rfl

/-- A column that is not covered is not uncovered. -/
theorem Stands.uncover_refused (stands : m.Stands p covered) (mem : c ∈ p.columns)
    (free : c ∉ covered) : m.uncover c = .error (.notCovered (m.mesh.shown c)) := by
  rw [Matrix.uncover, uncoverPlan, stands.isCovered_eq mem, decide_eq_false free]
  rfl

/-- A covered column is uncovered, whether or not it was covered last. -/
theorem Stands.uncover_of_mem (stands : m.Stands p covered) (mem : c ∈ covered) :
    m.uncover c = .ok (m.reveal c ((p.without (Problem.held covered c)).mates c).reverse) := by
  rw [Matrix.uncover, stands.uncoverPlan_of_mem mem]
  rfl

/-- The header of a covered column is not its own neighbour. -/
theorem Nested.apart (nested : Nested start covered m) (initial : start.Stands p [])
    (mem : c ∈ covered) : m.mesh.neighbor .left c ≠ c ∧ m.mesh.neighbor .right c ≠ c := by
  induction nested generalizing c with
  | start => cases mem
  | @cover covered m m' b before done ih =>
    have stands := before.stands initial
    rw [List.append_nil] at stands
    obtain ⟨declared, free, rfl⟩ := stands.of_cover done
    obtain ⟨root, xs, -, row, hb, out⟩ := stands.shows.exists_row declared free
    have inRing : b ∈ root :: xs := List.mem_cons_of_mem _ hb
    have links := Mesh.horizontal_hide m.mesh b ((p.without covered).mates b)
    change (Mesh.hide ..).horizontal.prev.get c ≠ c ∧ (Mesh.hide ..).horizontal.next.get c ≠ c
    rw [links]
    rcases List.mem_cons.1 mem with rfl | mem
    · rw [(row.ring.links_unlink_self hb).1, (row.ring.links_unlink_self hb).2]
      exact ⟨row.ring.prev_ne hb, row.ring.next_ne hb⟩
    · rw [(row.ring.links_unlink inRing (out c mem)).1,
        (row.ring.links_unlink inRing (out c mem)).2]
      exact ih mem
  | @uncover covered m m' b before done ih =>
    have stands := before.stands initial
    rw [List.append_nil] at stands
    obtain ⟨notMem, -⟩ := List.nodup_cons.1 stands.shows.covered_nodup
    have ne : c ≠ b := fun eq => notMem (eq ▸ mem)
    obtain ⟨left, right⟩ := ih (List.mem_cons_of_mem _ mem)
    rw [stands.of_uncover done]
    have links := Mesh.horizontal_reveal m.mesh b ((p.without covered).mates b).reverse
    change (Mesh.reveal ..).horizontal.prev.get c ≠ c ∧ (Mesh.reveal ..).horizontal.next.get c ≠ c
    rw [links]
    exact Rings.relink_apart ne left right

/-- What reads as covered once the header of a covered column is put back, in whatever order. -/
theorem Nested.isCovered_reveal (nested : Nested start covered m) (initial : start.Stands p [])
    (mem : c ∈ covered) (nodes : List Nat) (declared : d ∈ p.columns) :
    (m.reveal c nodes).isCovered d
      = .ok (decide (d ≠ c ∧ d ≠ m.mesh.neighbor .right c ∧
          (m.mesh.neighbor .left d = m.mesh.neighbor .left c ∨ d ∈ covered))) := by
  have stands := nested.stands initial
  rw [List.append_nil] at stands
  obtain ⟨left, right⟩ := nested.apart initial mem
  have links := Mesh.horizontal_reveal m.mesh c nodes
  have column : (m.reveal c nodes).isColumn d = true := stands.named.isColumn_iff.2 declared
  have hidden : (m.reveal c nodes).isHidden d = decide (d ≠ c ∧ d ≠ m.mesh.neighbor .right c ∧
      (m.mesh.neighbor .left d = m.mesh.neighbor .left c ∨ d ∈ covered)) := by
    rw [Bool.eq_iff_iff, decide_eq_true_eq, ← stands.shows.hidden_iff declared, isHidden,
      bne_iff_ne]
    change (Mesh.reveal ..).horizontal.next.get ((Mesh.reveal ..).horizontal.prev.get d) ≠ d ↔ _
    rw [links]
    exact Rings.hidden_relink left right
  simp [isCovered, checkColumn, column, hidden, bind, Except.bind, pure, Except.pure]

/-! ## Orderly attempts -/

/-- After covers and uncovers of which the refused ones are passed over, and as long as every
accepted uncover undoes the latest cover still in force, exactly the columns that do not count as
covered may be covered, and exactly those that do may be uncovered, also when they were not covered
last. What reads as covered after such an uncover is told by the links of its header: for one that
was not covered last that need not be what counts as covered. -/
theorem attempts_answered (built : Built start q) (orderly : Orderly start [] steps)
    (declared : c ∈ q.numbered.columns) :
    let m := start.attempts steps
    (start.balance c steps = 1 →
      m.cover c = .error (.alreadyCovered (m.mesh.shown c)) ∧ ∃ m', m.uncover c = .ok m') ∧
    (start.balance c steps ≠ 1 →
      (∃ m', m.cover c = .ok m') ∧ m.uncover c = .error (.notCovered (m.mesh.shown c))) ∧
    ∀ m', m.uncover c = .ok m' → ∀ d ∈ q.numbered.columns,
      m'.isCovered d = .ok (decide (d ≠ c ∧ d ≠ m.mesh.neighbor .right c ∧
        (m.mesh.neighbor .left d = m.mesh.neighbor .left c ∨ start.balance d steps = 1))) := by
  obtain ⟨covered, nested, counted⟩ := orderly.mem_iff built
  obtain ⟨initial, -⟩ := built.stands_numbered .start
  obtain ⟨stands, -⟩ := built.stands_numbered nested
  simp only [ne_eq, ← counted]
  refine ⟨fun mem => ⟨stands.cover_refused mem, _, stands.uncover_of_mem mem⟩,
    fun free => ⟨⟨_, stands.cover_eq declared free⟩, stands.uncover_refused declared free⟩,
    fun m' done d hd => ?_⟩
  have mem : c ∈ covered := by
    by_contra free
    rw [stands.uncover_refused declared free] at done
    cases done
  rw [stands.uncover_of_mem mem] at done
  cases done
  exact nested.isCovered_reveal initial mem _ hd

/-- On the sample, a second cover of a column is passed over and the latest cover undone. The column
covered before that still counts as covered, and the links say so. -/
theorem attempts_answered_sample :
    sample.balance 3 [.cover 3, .cover 2, .cover 3, .uncover 2] = 1 ∧
      (sample.attempts [.cover 3, .cover 2, .cover 3, .uncover 2]).cover 3
        = .error (.alreadyCovered "B") := by
  have orderly : Orderly sample [] [.cover 3, .cover 2, .cover 3, .uncover 2] :=
    .cover rfl (.cover rfl (.refused rfl (.uncover rfl .done)))
  have counts : sample.balance 3 [.cover 3, .cover 2, .cover 3, .uncover 2] = 1 := by decide
  have answers := attempts_answered built_sample orderly (c := 3) (by decide)
  exact ⟨counts, (answers.1 counts).1⟩

/-- The cover of a column is not the latest any more and is undone. The column beside it, which was
covered after it, still counts as covered, and is covered once more without complaint. -/
theorem not_refused_out_of_order :
    sample.balance 3 [.cover 2, .cover 3, .uncover 2] = 1 ∧
      ((sample.attempts [.cover 2, .cover 3, .uncover 2]).cover 3).isOk :=
  ⟨rfl, by decide +kernel⟩

end DancingLinks.Matrix
