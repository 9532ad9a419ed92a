import DancingLinks.Text.Ranges

/-!
# Lines

A line ends at a line feed, a carriage return, the two together, or one of the other characters that
separate lines. Nothing follows the last line end: a text that ends with one has no empty last line.
-/

namespace DancingLinks.Text

/-- The ranges of the characters that end a line: line feed to carriage return, the ASCII file,
group and record separators, next line, and the line and paragraph separators. -/
def lineEndRanges : List (Nat × Nat) :=
  [(0x0A, 0x0D), (0x1C, 0x1E), (0x85, 0x85), (0x2028, 0x2029)]

/-- A character that ends a line. -/
def isLineEnd (c : Char) : Bool := inRanges lineEndRanges c

/-- The lines of a text; the first one has the characters `line`, latest first, before it. -/
def lineChars (line : List Char) : List Char → List (List Char)
  | [] => if line.isEmpty then [] else [line.reverse]
  | '\r' :: '\n' :: cs => line.reverse :: lineChars [] cs
  | c :: cs => if isLineEnd c then line.reverse :: lineChars [] cs else lineChars (c :: line) cs

/-- The lines of a text, without their ends. -/
def lines (s : String) : List String := (lineChars [] s.toList).map String.ofList

example : lines "a\r\nb\r\rc\u2028" = ["a", "b", "", "c"] := by decide +kernel

end DancingLinks.Text
