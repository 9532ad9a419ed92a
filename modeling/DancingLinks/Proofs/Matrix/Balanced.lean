import DancingLinks.Proofs.Matrix.Names

/-!
# Balanced steps

A sequence of covers and uncovers is balanced when every uncover undoes the latest cover of the
sequence still in force and none is left in force at the end (`Balanced`). Such a sequence runs to its
end exactly when it only covers columns that are not covered at that moment (`Fresh`): a second cover
of a column is refused. Then every link and every count is what it was before, also those of nodes
that are hidden at that moment (`run_balanced`).

What the covers in force have taken out is kept in `Unwinds`, which one step preserves
(`Unwinds.cover`, `Unwinds.uncover`), and so a run of steps does.
-/

namespace DancingLinks.Matrix

variable {m mid mid' start : Matrix} {p : Problem Nat} {q : Problem String}
  {covered inForce : List Nat} {steps : List Step} {c : Nat}

/-! ## Sequences of steps -/

/-- The matrix after some steps, none of which may be refused. -/
def run (m : Matrix) (steps : List Step) : Except Fault Matrix := steps.foldlM step m

/-- Steps that undo the covers in force, the latest first, and every cover of their own. -/
inductive Balanced : (inForce : List Nat) → List Step → Prop
  /-- No cover is in force at the end. -/
  | done : Balanced [] []
  /-- One more cover is in force. -/
  | cover {inForce : List Nat} {steps : List Step} {c : Nat} :
      Balanced (c :: inForce) steps → Balanced inForce (.cover c :: steps)
  /-- The latest cover in force is undone. -/
  | uncover {inForce : List Nat} {steps : List Step} {c : Nat} :
      Balanced inForce steps → Balanced (c :: inForce) (.uncover c :: steps)

/-- Every cover is of one of the columns, and of none that is covered at that moment. -/
def Fresh (columns : List Nat) : (covered : List Nat) → List Step → Prop
  | _, [] => True
  | covered, .cover c :: steps => (c ∈ columns ∧ c ∉ covered) ∧ Fresh columns (c :: covered) steps
  | covered, .uncover c :: steps => Fresh columns (covered.erase c) steps

instance decidableFresh (columns : List Nat) :
    (covered : List Nat) → (steps : List Step) → Decidable (Fresh columns covered steps)
  | _, [] => .isTrue trivial
  | covered, .cover c :: steps =>
    have := decidableFresh columns (c :: covered) steps
    inferInstanceAs (Decidable ((c ∈ columns ∧ c ∉ covered) ∧ Fresh columns (c :: covered) steps))
  | covered, .uncover c :: steps => decidableFresh columns (covered.erase c) steps

/-- A step that is done is followed by the others. -/
theorem run_cons {s : Step} (done : m.step s = .ok mid) : m.run (s :: steps) = mid.run steps := by
  rw [run, List.foldlM_cons, done]
  rfl

/-- A run that comes to its end does its first step. -/
theorem ok_of_run {s : Step} (ran : m.run (s :: steps) = .ok mid') :
    ∃ mid, m.step s = .ok mid ∧ mid.run steps = .ok mid' := by
  rw [run, List.foldlM_cons] at ran
  exact ok_of_bind ran

/-! ## One step -/

/-- A column that is left can be covered. -/
theorem Stands.cover_eq (stands : m.Stands p covered) (mem : c ∈ p.columns) (free : c ∉ covered) :
    m.cover c = .ok (m.hide c ((p.without covered).mates c)) := by
  rw [Matrix.cover, stands.coverPlan_eq mem free]
  rfl

/-- The latest cover can be undone. -/
theorem Stands.uncover_eq (stands : m.Stands p (c :: covered)) :
    m.uncover c = .ok (m.reveal c ((p.without covered).mates c).reverse) := by
  rw [Matrix.uncover, stands.uncoverPlan_eq]
  rfl

/-- A cover adds to what is to be undone. -/
theorem Unwinds.cover (unwinds : Unwinds m p covered inForce mid) (stands : m.Stands p covered)
    (done : mid.cover c = .ok mid') : Unwinds m p covered (c :: inForce) mid' := by
  have left := unwinds.stands stands
  obtain ⟨mem, free, rfl⟩ := left.of_cover done
  exact ⟨left.hide mem free, unwinds.congr (left.reveal_hide mem free).symm⟩

/-- The uncover of the latest column takes from what is to be undone. -/
theorem Unwinds.uncover (unwinds : Unwinds m p covered (c :: inForce) mid)
    (done : mid.uncover c = .ok mid') : Unwinds m p covered inForce mid' := by
  rw [unwinds.1.of_uncover done]
  exact unwinds.2

/-! ## Balanced runs -/

/-- A balanced run that comes to its end undoes every cover. -/
theorem Unwinds.run_alike (unwinds : Unwinds m p covered inForce mid) (stands : m.Stands p covered)
    (balanced : Balanced inForce steps) (ran : mid.run steps = .ok mid') : mid'.Alike m := by
  induction balanced generalizing mid with
  | done =>
    cases ran
    exact unwinds
  | cover _ ih =>
    obtain ⟨next, done, ran⟩ := ok_of_run ran
    exact ih (unwinds.cover stands done) ran
  | uncover _ ih =>
    obtain ⟨next, done, ran⟩ := ok_of_run ran
    exact ih (unwinds.uncover done) ran

/-- A balanced run comes to its end when it covers only columns that are not covered. -/
theorem Unwinds.run_ok_iff (unwinds : Unwinds m p covered inForce mid) (stands : m.Stands p covered)
    (balanced : Balanced inForce steps) :
    (∃ mid', mid.run steps = .ok mid') ↔ Fresh p.columns (inForce ++ covered) steps := by
  induction balanced generalizing mid with
  | done => exact ⟨fun _ => trivial, fun _ => ⟨mid, rfl⟩⟩
  | @cover inForce steps c _ ih =>
    have left := unwinds.stands stands
    constructor
    · rintro ⟨mid', ran⟩
      obtain ⟨next, done, ran⟩ := ok_of_run ran
      obtain ⟨mem, free, -⟩ := left.of_cover done
      exact ⟨⟨mem, free⟩, (ih (unwinds.cover stands done)).1 ⟨mid', ran⟩⟩
    · rintro ⟨⟨mem, free⟩, fresh⟩
      have done : mid.step (.cover c) = _ := left.cover_eq mem free
      rw [run_cons done]
      exact (ih (unwinds.cover stands done)).2 fresh
  | @uncover inForce steps c _ ih =>
    have done : mid.step (.uncover c) = _ := unwinds.1.uncover_eq
    have others : (c :: inForce ++ covered).erase c = inForce ++ covered := List.erase_cons_head ..
    rw [run_cons done, Fresh, others]
    exact ih (unwinds.uncover done)

/-- After covers and uncovers, every uncover undoing the latest cover still in force, a balanced
sequence of further steps is run to its end exactly when it covers only columns that are not covered
at that moment, and then every link and every count is what it was before. -/
theorem run_balanced (built : Built start q) (nested : Nested start covered m)
    (balanced : Balanced [] steps) :
    ((∃ m', m.run steps = .ok m') ↔ Fresh q.numbered.columns covered steps) ∧
      ∀ {m'}, m.run steps = .ok m' →
        (∀ d x, m'.mesh.neighbor d x = m.mesh.neighbor d x) ∧
          ∀ x, m'.mesh.count x = m.mesh.count x := by
  obtain ⟨stands, -⟩ := built.stands_numbered nested
  have unwinds : Unwinds m q.numbered covered [] m := .refl m
  refine ⟨unwinds.run_ok_iff stands balanced, fun ran => ?_⟩
  have alike := (unwinds.run_alike stands balanced ran).mesh
  exact ⟨fun d x => congrFun (congrFun alike.neighbor d) x, fun x => congrFun alike.count x⟩

/-- With the secondary column of the sample covered, its primary columns are covered and uncovered. -/
theorem run_balanced_sample : ∃ m',
    (sample.hide 4 [5, 6]).run [.cover 2, .cover 3, .uncover 3, .uncover 2, .cover 3, .uncover 3]
      = .ok m' ∧ ∀ d x, m'.mesh.neighbor d x = (sample.hide 4 [5, 6]).mesh.neighbor d x := by
  have nested : Nested sample [4] (sample.hide 4 [5, 6]) := .cover (c := 4) .start rfl
  have balanced : Balanced []
      [.cover 2, .cover 3, .uncover 3, .uncover 2, .cover 3, .uncover 3] :=
    .cover (.cover (.uncover (.uncover (.cover (.uncover .done)))))
  obtain ⟨ends, restores⟩ := run_balanced built_sample nested balanced
  obtain ⟨m', ran⟩ := ends.2 (by decide)
  exact ⟨m', ran, (restores ran).1⟩

/-- Covering a column of the sample twice is refused, though both covers are undone at the end. -/
theorem run_balanced_refused : Balanced [] [.cover 2, .cover 2, .uncover 2, .uncover 2] ∧
    sample.run [.cover 2, .cover 2, .uncover 2, .uncover 2] = .error (.alreadyCovered "A") :=
  ⟨.cover (.cover (.uncover (.uncover .done))), rfl⟩

end DancingLinks.Matrix
