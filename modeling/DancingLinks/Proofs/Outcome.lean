/-!
# Outcomes that may be faults

Facts about computations that end with a value or a fault: a sequence that ends with a value has a
first step that does, and a list of computations ends with a value when all of them do, and with a
fault when one of them does.
-/

namespace DancingLinks

variable {ε α β : Type}

theorem eq_ok_of_toOption {x : Except ε α} {a : α} (ends : x.toOption = some a) : x = .ok a := by
  cases x with
  | error fault => cases ends
  | ok b => exact congrArg _ (Option.some.inj ends)

theorem exists_ok_of_isOk {x : Except ε α} (ends : x.isOk = true) : ∃ a, x = .ok a := by
  cases x with
  | error fault => cases ends
  | ok a => exact ⟨a, rfl⟩

/-- A sequence that ends with a value has a first step that does. -/
theorem ok_of_bind {x : Except ε α} {f : α → Except ε β} {b : β} (h : (x >>= f) = .ok b) :
    ∃ a, x = .ok a ∧ f a = .ok b := by
  cases x with
  | error fault => cases h
  | ok a => exact ⟨a, rfl, h⟩

/-- A sequence that ends with a fault has it from its first step, or from what follows. -/
theorem error_of_bind {x : Except ε α} {f : α → Except ε β} {fault : ε}
    (h : (x >>= f) = .error fault) : x = .error fault ∨ ∃ a, x = .ok a ∧ f a = .error fault := by
  cases x with
  | error fault' =>
    cases h
    exact .inl rfl
  | ok a => exact .inr ⟨a, rfl, h⟩

/-- What is done to the values of a computation is done to one of them. -/
theorem ok_of_map {x : Except ε α} {f : α → β} {b : β} (h : x.map f = .ok b) :
    ∃ a, x = .ok a ∧ f a = b := by
  cases x with
  | error fault => cases h
  | ok a => exact ⟨a, rfl, Except.ok.inj h⟩

/-- Computations that all end with a value end with all values. -/
theorem mapM_ok {f : α → Except ε β} {g : α → β} {xs : List α} (h : ∀ x ∈ xs, f x = .ok (g x)) :
    xs.mapM f = .ok (xs.map g) := by
  induction xs with
  | nil => rfl
  | cons x xs ih =>
    have rest := ih fun y mem => h y (List.mem_cons_of_mem _ mem)
    rw [List.mapM_cons, h x List.mem_cons_self, rest]
    rfl

/-- Computations that all end with some value: those at the front end with the values at the front. -/
theorem exists_mapM_take {f : α → Except ε β} {xs : List α} (h : ∀ x ∈ xs, ∃ y, f x = .ok y) :
    ∃ ys : List β, xs.mapM f = .ok ys ∧ ys.length = xs.length ∧
      ∀ k, (xs.take k).mapM f = .ok (ys.take k) := by
  induction xs with
  | nil => exact ⟨[], rfl, rfl, fun k => by rw [List.take_nil, List.take_nil]; rfl⟩
  | cons x xs ih =>
    obtain ⟨⟨y, first⟩, others⟩ := List.forall_mem_cons.1 h
    obtain ⟨ys, rest, length, front⟩ := ih others
    have whole : ∀ {zs : List α} {ws : List β}, zs.mapM f = .ok ws →
        (x :: zs).mapM f = .ok (y :: ws) := fun made => by
      rw [List.mapM_cons, first, made]
      rfl
    refine ⟨y :: ys, whole rest, congrArg (· + 1) length, fun k => ?_⟩
    cases k with
    | zero => rfl
    | succ k => exact whole (front k)

/-- A computation that fails makes all of them fail. -/
theorem exists_mapM_error {f : α → Except ε β} {xs : List α} {x : α} (mem : x ∈ xs)
    (fails : ∃ fault, f x = .error fault) : ∃ fault, xs.mapM f = .error fault := by
  induction xs with
  | nil => cases mem
  | cons z xs ih =>
    rw [List.mapM_cons]
    cases first : f z with
    | error fault => exact ⟨fault, rfl⟩
    | ok y =>
      rcases List.mem_cons.1 mem with rfl | mem
      · obtain ⟨fault, failed⟩ := fails
        rw [first] at failed
        cases failed
      · obtain ⟨fault, rest⟩ := ih mem
        exact ⟨fault, by rw [rest]; rfl⟩

/-- Every value of computations is that of one of them. -/
theorem exists_of_mem_mapM {f : α → Except ε β} {xs : List α} {ys : List β} {y : β}
    (made : xs.mapM f = .ok ys) (mem : y ∈ ys) : ∃ x ∈ xs, f x = .ok y := by
  induction xs generalizing ys with
  | nil =>
    cases made
    cases mem
  | cons x xs ih =>
    rw [List.mapM_cons] at made
    obtain ⟨z, first, made⟩ := ok_of_bind made
    obtain ⟨zs, rest, made⟩ := ok_of_bind made
    cases made
    rcases List.mem_cons.1 mem with rfl | mem
    · exact ⟨x, List.mem_cons_self, first⟩
    · obtain ⟨x', mem', same⟩ := ih rest mem
      exact ⟨x', List.mem_cons_of_mem _ mem', same⟩

/-- Computations that can only end with known values end with these. -/
theorem eq_map_of_mapM {f : α → Except ε β} {g : α → β} {xs : List α} {ys : List β}
    (made : xs.mapM f = .ok ys) (known : ∀ x ∈ xs, ∀ y, f x = .ok y → y = g x) : ys = xs.map g := by
  induction xs generalizing ys with
  | nil =>
    cases made
    rfl
  | cons x xs ih =>
    rw [List.mapM_cons] at made
    obtain ⟨z, first, made⟩ := ok_of_bind made
    obtain ⟨zs, rest, made⟩ := ok_of_bind made
    cases made
    obtain ⟨here, others⟩ := List.forall_mem_cons.1 known
    rw [List.map_cons, here z first, ih rest others]

end DancingLinks
