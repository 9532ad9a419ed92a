import DancingLinks.Proofs.ExactCover.Branches

/-!
# The order of the branches

Whatever column is branched on, the choices that use it are tried in the order in which they are
listed, and every one is followed to the end before the next. So the branches are listed in
lexicographic order of what was chosen (`pairwise_branches_lex`).

When the leftmost column is branched on, and no choice uses two of the columns at the front, these are
branched on one after the other (`prefix_of_mem_branches`): a choice that covers one of them leaves the
others.
-/

namespace DancingLinks.Problem

variable {κ : Type} [DecidableEq κ] {p : Problem κ} {s : Selector} {branch : List (Choice κ × κ)}

/-- The branches are in lexicographic order, when the choices are in order. -/
theorem pairwise_branches_lex {α : Type} {key : Choice κ → α} {less : α → α → Prop}
    (ordered : p.choices.Pairwise fun r r' => less (key r) (key r')) :
    (p.branches s).Pairwise fun a b =>
      List.Lex less (a.map fun b => key b.1) (b.map fun b => key b.1) := by
  induction p using @descend κ _ _ s with
  | step p ih =>
    cases pivot : p.pivot? s with
    | none =>
      rw [branches_of_none pivot]
      exact List.pairwise_singleton _ _
    | some c =>
      rw [branches_eq pivot, List.pairwise_flatMap]
      constructor
      · intro r hr
        obtain ⟨hr, used⟩ := List.mem_filter.1 hr
        rw [List.pairwise_map]
        exact (ih c r pivot hr (of_decide_eq_true used) (ordered.filter _)).imp List.Lex.cons
      · refine (ordered.filter _).imp fun less a ha b hb => ?_
        obtain ⟨_, -, rfl⟩ := List.mem_map.1 ha
        obtain ⟨_, -, rfl⟩ := List.mem_map.1 hb
        exact List.Lex.rel less

/-- The columns at the front are branched on first and in their order, when no choice uses two of them.
-/
theorem prefix_of_mem_branches {front back : List κ} (primary : p.primary = front ++ back)
    (different : front.Nodup)
    (alone : ∀ r ∈ p.choices, ∀ c ∈ front, ∀ d ∈ front, c ∈ r.columns → d ∈ r.columns → c = d)
    (mem : branch ∈ p.branches .first) : front <+: branch.map Prod.snd := by
  induction front generalizing p back branch with
  | nil => exact List.nil_prefix
  | cons c front ih =>
    obtain ⟨new, distinct⟩ := List.nodup_cons.1 different
    have pivot : p.pivot? .first = some c := by
      rw [pivot?_first, primary]
      rfl
    cases branch with
    | nil => exact absurd mem (not_nil_mem_branches pivot)
    | cons b branch =>
      obtain ⟨hr, used, rfl, rest⟩ := (cons_mem_branches pivot).1 mem
      have kept : ∀ d ∈ front, d ∉ b.1.columns := by
        intro d hd used'
        have same := alone b.1 hr b.2 List.mem_cons_self d (List.mem_cons_of_mem _ hd) used used'
        exact new (same ▸ hd)
      have left : (p.without b.1.columns).primary
          = front ++ back.filter (· ∉ b.1.columns) := by
        have gone : decide (b.2 ∉ b.1.columns) = false := decide_eq_false (not_not_intro used)
        rw [without, primary, List.cons_append, List.filter_cons, gone, List.filter_append,
          List.filter_eq_self.2 fun d hd => decide_eq_true (kept d hd)]
        rfl
      refine (List.prefix_cons_inj b.2).2 (ih left distinct (fun r hr c hc d hd => ?_) rest)
      exact alone r (mem_choices_without.1 hr).1 c (List.mem_cons_of_mem _ hc) d
        (List.mem_cons_of_mem _ hd)

end DancingLinks.Problem
