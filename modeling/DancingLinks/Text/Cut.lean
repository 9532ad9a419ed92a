/-!
# Cutting a text at a separator

`cutAt` splits a text at the first occurrence of a separator. The first part never holds the
separator (`not_mem_cutAt`), and the text can be put together again (`cutAt_append`).
-/

namespace DancingLinks.Text

/-- The characters before the first `sep`, and those after it if there is one. -/
def cutAt (sep : Char) (cs : List Char) : List Char × Option (List Char) :=
  match cs with
  | [] => ([], none)
  | c :: cs =>
    if c = sep then ([], some cs)
    else
      let (before, after) := cutAt sep cs
      (c :: before, after)

/-- The text before the first `sep`, and the text after it if there is one. -/
def cut (s : String) (sep : Char) : String × Option String :=
  let (before, after) := cutAt sep s.toList
  (String.ofList before, after.map String.ofList)

/-- The part before the cut does not hold the separator. -/
theorem not_mem_cutAt (sep : Char) (cs : List Char) : sep ∉ (cutAt sep cs).1 := by
  induction cs with
  | nil => simp [cutAt]
  | cons c cs ih =>
    unfold cutAt
    split
    · simp
    · next differs => simpa [ih] using Ne.symm differs

/-- A text whose first part is free of the separator is cut right there. -/
theorem cutAt_append {sep : Char} {before : List Char} (free : sep ∉ before) (after : List Char) :
    cutAt sep (before ++ sep :: after) = (before, some after) := by
  induction before with
  | nil => simp [cutAt]
  | cons c before ih =>
    simp only [List.mem_cons, not_or] at free
    obtain ⟨differs, free⟩ := free
    simp [cutAt, Ne.symm differs, ih free]

/-- A text free of the separator is not cut. -/
theorem cutAt_of_not_mem {sep : Char} {cs : List Char} (free : sep ∉ cs) :
    cutAt sep cs = (cs, none) := by
  induction cs with
  | nil => rfl
  | cons c cs ih =>
    simp only [List.mem_cons, not_or] at free
    obtain ⟨differs, free⟩ := free
    simp [cutAt, Ne.symm differs, ih free]

end DancingLinks.Text
