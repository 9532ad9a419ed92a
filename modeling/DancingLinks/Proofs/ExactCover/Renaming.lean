import DancingLinks.Proofs.ExactCover.Exact

/-!
# Renaming columns

A problem may have its columns renamed. As long as different columns keep different names
(`Problem.Faithful`), covering columns and searching for covers commute with it (`map_without`,
`branches_map`, `covers_map`).
-/

namespace DancingLinks

variable {κ μ : Type}

/-- The choice with its columns renamed. -/
def Choice.map (f : κ → μ) (r : Choice κ) : Choice μ := ⟨r.number, r.name, r.columns.map f⟩

/-- The problem with its columns renamed. -/
def Problem.map (f : κ → μ) (p : Problem κ) : Problem μ :=
  ⟨p.primary.map f, p.secondary.map f, p.choices.map (Choice.map f)⟩

namespace Problem

variable {p : Problem κ} {f : κ → μ} {c : κ} {cs covered : List κ} {r : Choice κ} {s : Selector}

/-- Different columns have different names. -/
def Faithful (f : κ → μ) (p : Problem κ) : Prop :=
  ∀ a ∈ p.columns, ∀ b ∈ p.columns, f a = f b → a = b

/-- A column is among others when its name is among theirs. -/
theorem Faithful.mem_map (faithful : p.Faithful f) (hc : c ∈ p.columns)
    (hcs : ∀ d ∈ cs, d ∈ p.columns) : f c ∈ cs.map f ↔ c ∈ cs := by
  rw [List.mem_map]
  constructor
  · rintro ⟨d, hd, same⟩
    exact faithful d (hcs d hd) c hc same ▸ hd
  · exact fun hc => ⟨c, hc, rfl⟩

theorem columns_map (f : κ → μ) (p : Problem κ) : (p.map f).columns = p.columns.map f :=
  List.map_append.symm

theorem map_number_map (f : κ → μ) (p : Problem κ) :
    (p.map f).choices.map Choice.number = p.choices.map Choice.number := by
  rw [map, List.map_map]
  rfl

theorem Declares.map (declares : p.Declares) (f : κ → μ) : (p.map f).Declares := by
  intro r hr c used
  obtain ⟨r', hr', rfl⟩ := List.mem_map.1 hr
  obtain ⟨c', used', rfl⟩ := List.mem_map.1 used
  rw [columns_map]
  exact List.mem_map_of_mem (declares r' hr' c' used')

/-- A problem is renamed alike by functions that agree on its columns. -/
theorem map_congr {g : κ → μ} (declares : p.Declares) (same : ∀ c ∈ p.columns, f c = g c) :
    p.map f = p.map g := by
  have primary : p.primary.map f = p.primary.map g :=
    List.map_congr_left fun c hc => same c (List.mem_append_left _ hc)
  have secondary : p.secondary.map f = p.secondary.map g :=
    List.map_congr_left fun c hc => same c (List.mem_append_right _ hc)
  have choices : p.choices.map (Choice.map f) = p.choices.map (Choice.map g) :=
    List.map_congr_left fun r hr => congrArg (Choice.mk r.number r.name)
      (List.map_congr_left fun c hc => same c (declares r hr c hc))
  rw [map, primary, secondary, choices]
  rfl

/-- Renaming back and forth leaves a problem as it is. -/
theorem map_map_cancel {g : μ → κ} (declares : p.Declares) (cancel : ∀ c ∈ p.columns, g (f c) = c) :
    (p.map f).map g = p := by
  have choices : Choice.map g ∘ Choice.map f = Choice.map (g ∘ f) := by
    funext r
    simp [Choice.map]
  have same : Choice.map (id : κ → κ) = id := by
    funext r
    simp [Choice.map]
  calc (p.map f).map g = p.map (g ∘ f) := by simp only [map, List.map_map, choices]
    _ = p.map id := map_congr declares cancel
    _ = p := by simp only [map, same, List.map_id]

/-! ## What is left -/

variable [DecidableEq κ]

theorem Faithful.without (faithful : p.Faithful f) (covered : List κ) :
    (p.without covered).Faithful f := fun a ha b hb =>
  faithful a (mem_columns_without.1 ha).1 b (mem_columns_without.1 hb).1

variable [DecidableEq μ]

/-- Columns are covered by their names. -/
theorem map_without (declares : p.Declares) (faithful : p.Faithful f)
    (known : ∀ c ∈ covered, c ∈ p.columns) :
    (p.map f).without (covered.map f) = (p.without covered).map f := by
  have same : ∀ c ∈ p.columns, decide (f c ∉ covered.map f) = decide (c ∉ covered) := fun c hc =>
    decide_eq_decide.2 (not_congr (faithful.mem_map hc known))
  simp only [without, map, List.filter_map, mk.injEq]
  refine ⟨congrArg _ (List.filter_congr fun c hc => ?_),
    congrArg _ (List.filter_congr fun c hc => ?_), congrArg _ (List.filter_congr fun r hr => ?_)⟩
  · exact same c (List.mem_append_left _ hc)
  · exact same c (List.mem_append_right _ hc)
  · rw [Bool.eq_iff_iff]
    simp only [Function.comp_apply, Choice.map, List.all_map, List.all_eq_true]
    refine forall₂_congr fun c used => ?_
    rw [← same c (declares r hr c used)]

/-- What a choice leaves. -/
theorem map_without_columns (declares : p.Declares) (faithful : p.Faithful f) (hr : r ∈ p.choices) :
    (p.map f).without (r.map f).columns = (p.without r.columns).map f :=
  map_without declares faithful (declares r hr)

/-! ## The search -/

/-- A column is used as often as its name. -/
theorem uses_map (declares : p.Declares) (faithful : p.Faithful f) (hc : c ∈ p.columns) :
    uses (p.map f).choices (f c) = uses p.choices c := by
  rw [uses, uses, map, List.countP_map]
  refine List.countP_congr fun r hr => ?_
  simp only [Function.comp_apply, decide_eq_true_eq]
  exact faithful.mem_map hc (declares r hr)

theorem pivot?_map (declares : p.Declares) (faithful : p.Faithful f) :
    (p.map f).pivot? s = (p.pivot? s).map f := by
  have counts : ∀ c ∈ p.primary,
      ((fun c => (uses (p.map f).choices c : Int)) ∘ f) c = (uses p.choices c : Int) := fun c hc =>
    congrArg Nat.cast (uses_map declares faithful (List.mem_append_left _ hc))
  rw [pivot?, pivot?, ← Selector.choose?_congr counts]
  exact Selector.choose?_map f p.primary

/-- The branches of a problem, renamed. -/
theorem branches_map (declares : p.Declares) (faithful : p.Faithful f) :
    (p.map f).branches s = (p.branches s).map (List.map fun b => (b.1.map f, f b.2)) := by
  induction p using @descend κ _ _ s with
  | step p ih =>
    cases pivot : p.pivot? s with
    | none =>
      have renamed : (p.map f).pivot? s = none := by rw [pivot?_map declares faithful, pivot]; rfl
      rw [branches_of_none pivot, branches_of_none renamed]
      rfl
    | some c =>
      have renamed : (p.map f).pivot? s = some (f c) := by
        rw [pivot?_map declares faithful, pivot]; rfl
      have hc : c ∈ p.columns := List.mem_append_left _ (pivot?_mem pivot)
      have used : (p.map f).choices.filter (f c ∈ ·.columns)
          = (p.choices.filter (c ∈ ·.columns)).map (Choice.map f) := by
        rw [map, List.filter_map]
        refine congrArg _ (List.filter_congr fun r hr => ?_)
        exact decide_eq_decide.2 (faithful.mem_map hc (declares r hr))
      rw [branches_eq pivot, branches_eq renamed, used, List.flatMap_map, List.map_flatMap]
      refine List.flatMap_congr fun r hr => ?_
      obtain ⟨hr, uses⟩ := List.mem_filter.1 hr
      rw [map_without_columns declares faithful hr, ih c r pivot hr (by simpa using uses)
        (declares.without _) (faithful.without _), List.map_map, List.map_map]
      rfl

/-- Two conditions that agree on a list cut it at the same place. -/
theorem while_congr {α : Type} {g h : α → Bool} {xs : List α} (same : ∀ x ∈ xs, g x = h x) :
    xs.takeWhile g = xs.takeWhile h ∧ xs.dropWhile g = xs.dropWhile h := by
  induction xs with
  | nil => exact ⟨rfl, rfl⟩
  | cons x xs ih =>
    obtain ⟨before, after⟩ := ih fun y hy => same y (List.mem_cons_of_mem _ hy)
    rw [List.takeWhile_cons, List.takeWhile_cons, List.dropWhile_cons, List.dropWhile_cons, before,
      after, same x List.mem_cons_self]
    exact ⟨rfl, rfl⟩

/-- A choice is turned to a column by the column's name. -/
theorem startingAt_map (faithful : p.Faithful f) (hr : ∀ d ∈ r.columns, d ∈ p.columns)
    (hc : c ∈ p.columns) : (r.map f).startingAt (f c) = (r.startingAt c).map f := by
  have same : ∀ d ∈ r.columns, decide (f d ≠ f c) = decide (d ≠ c) := fun d hd =>
    decide_eq_decide.2 (not_congr ⟨faithful d (hr d hd) c hc, congrArg f⟩)
  obtain ⟨before, after⟩ := while_congr same
  rw [Choice.startingAt, Choice.startingAt, Choice.map, Choice.map, List.map_append, ← before,
    ← after, List.takeWhile_map, List.dropWhile_map]
  rfl

/-- The covers of a problem, renamed. -/
theorem covers_map (declares : p.Declares) (faithful : p.Faithful f) :
    (p.map f).covers s = (p.covers s).map (List.map (Choice.map f)) := by
  rw [covers_eq_branches, covers_eq_branches, branches_map declares faithful, List.map_map,
    List.map_map]
  refine List.map_congr_left fun branch mem => ?_
  simp only [Function.comp_apply, List.map_map]
  refine List.map_congr_left fun b hb => ?_
  obtain ⟨hr, used⟩ := of_mem_branches mem b hb
  exact startingAt_map faithful (declares _ hr) (declares _ hr _ used)

end Problem

end DancingLinks
