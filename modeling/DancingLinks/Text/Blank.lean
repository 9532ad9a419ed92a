import DancingLinks.Text.Ranges

/-!
# Blanks

The blank characters, and what is made of them: a text without the blanks at its ends (`trim`), the
words between the blanks (`words`), and the test for a text of blanks only (`isBlankText`). All of
them are defined on lists of characters and lifted to strings.

A word holds no blank and is not empty (`words_of_mem`), so no word is lost when words are joined by
blanks again.
-/

namespace DancingLinks.Text

/-- The ranges of the blank characters: the ASCII controls from tabulator to carriage return and
from file separator to unit separator, the space, and the other spaces and line separators. -/
def blankRanges : List (Nat × Nat) :=
  [(0x09, 0x0D), (0x1C, 0x20), (0x85, 0x85), (0xA0, 0xA0), (0x1680, 0x1680), (0x2000, 0x200A),
    (0x2028, 0x2029), (0x202F, 0x202F), (0x205F, 0x205F), (0x3000, 0x3000)]

/-- A blank: what separates words and is trimmed off a text. -/
def isBlank (c : Char) : Bool := inRanges blankRanges c

/-- The characters between the blanks at both ends. -/
def trimChars (cs : List Char) : List Char :=
  ((cs.dropWhile isBlank).reverse.dropWhile isBlank).reverse

/-- The words of a text: its longest runs without a blank. -/
def wordChars : List Char → List (List Char)
  | [] => []
  | c :: cs =>
    if isBlank c then wordChars cs
    else match cs, wordChars cs with
      | d :: _, word :: words => if isBlank d then [c] :: word :: words else (c :: word) :: words
      | _, words => [c] :: words

/-- The text between the blanks at both ends. -/
def trim (s : String) : String := String.ofList (trimChars s.toList)

/-- The words of a text, in order. -/
def words (s : String) : List String := (wordChars s.toList).map String.ofList

/-- The text holds blanks only. -/
def isBlankText (s : String) : Bool := s.toList.all isBlank

/-- No word is empty or holds a blank. -/
theorem words_of_mem {cs word : List Char} (h : word ∈ wordChars cs) :
    word ≠ [] ∧ ∀ c ∈ word, isBlank c = false := by
  induction cs generalizing word with
  | nil => simp [wordChars] at h
  | cons c cs ih =>
    unfold wordChars at h
    split at h
    · exact ih h
    · next solid =>
      have solid : isBlank c = false := by simpa using solid
      split at h
      · next d rest first others found =>
        split at h
        · rcases List.mem_cons.1 h with rfl | h
          · simp [solid]
          · exact ih (found ▸ h)
        · rcases List.mem_cons.1 h with rfl | h
          · have first : first ∈ wordChars (d :: rest) := by simp [found]
            have := (ih first).2
            simpa [solid] using this
          · exact ih (by simp [found, h])
      · rcases List.mem_cons.1 h with rfl | h
        · simp [solid]
        · exact ih h

end DancingLinks.Text
