import DancingLinks.Viewer.Canvas

/-!
# Painting

`Paint α` is a piece of work on the screen: the calls it makes, and its value or the fault that
ended it. Pieces are done one after another; what was drawn before a fault stays drawn.
-/

namespace DancingLinks.Viewer

/-- The calls that are made, and what comes of them. -/
structure Paint (α : Type) where
  calls : List Call
  result : Except Fault α

namespace Paint

variable {α β : Type}

instance : Monad Paint where
  pure a := ⟨[], .ok a⟩
  bind step next :=
    match step.result with
    | .ok a =>
      let rest := next a
      ⟨step.calls ++ rest.calls, rest.result⟩
    | .error fault => ⟨step.calls, .error fault⟩

/-- Makes some calls. -/
def make (calls : List Call) : Paint Unit := ⟨calls, .ok ()⟩

/-- A value that is needed to go on. -/
def need (value : Except Fault α) : Paint α := ⟨[], value⟩

theorem pure_eq (a : α) : (pure a : Paint α) = ⟨[], .ok a⟩ := rfl

theorem ok_bind (calls : List Call) (a : α) (next : α → Paint β) :
    ((⟨calls, .ok a⟩ : Paint α) >>= next) = ⟨calls ++ (next a).calls, (next a).result⟩ := rfl

theorem error_bind (calls : List Call) (fault : Fault) (next : α → Paint β) :
    ((⟨calls, .error fault⟩ : Paint α) >>= next) = ⟨calls, .error fault⟩ := rfl

/-- Pieces none of which is broken off make all their calls, in order. -/
theorem forM_of_ok {f : α → Paint Unit} {xs : List α} (ok : ∀ x ∈ xs, (f x).result = .ok ()) :
    xs.forM f = ⟨xs.flatMap fun x => (f x).calls, .ok ()⟩ := by
  induction xs with
  | nil => rfl
  | cons x xs ih =>
    have first : f x = ⟨(f x).calls, .ok ()⟩ := by rw [← ok x (by simp)]
    have later := ih fun y mem => ok y (by simp [mem])
    show (f x >>= fun _ => xs.forM f) = _
    rw [first, ok_bind, later]
    rfl

end Paint

end DancingLinks.Viewer
