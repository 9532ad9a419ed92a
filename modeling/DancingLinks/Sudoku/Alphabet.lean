import DancingLinks.Fault
import DancingLinks.Sorted

/-!
# Alphabets

A sudoku of some size is filled with that many symbols. A symbol is one character that survives the
text form of a puzzle: it is not blank, not the sign of an empty square, and none of the signs that
separate names.
-/

namespace DancingLinks.Sudoku

/-- The character of an empty square. -/
def emptySymbol : Char := '.'

/-- The characters that are no symbols although they are not blank. -/
def reserved : List Char := [emptySymbol, ':', '|']

/-- The symbols that are used when a grid does not show enough of them. -/
def defaultSymbols : List Char := "123456789ABCDEFGHIJKLMNOPQRSTUVZ".toList

/-- The alphabet of the default symbols. -/
def defaultAlphabet : List String := defaultSymbols.map String.singleton

/-- The text is a symbol. -/
def isSymbol (text : String) : Bool :=
  match text.toList with
  | [c] => !Text.isBlank c && c ∉ reserved
  | _ => false

/-- Refuses an alphabet that is too small for a size, or holds a text that is no symbol. -/
def checkAlphabet (alphabet : List String) (size : Int) : Except Fault Unit :=
  if (alphabet.length : Int) < size then .error (.smallAlphabet alphabet size)
  else
    match alphabet.find? (!isSymbol ·) with
    | some symbol => .error (.badSymbol symbol)
    | none => .ok ()

/-- The symbols that a grid shows, in order. -/
def shownSymbols (lines : List String) : List Char :=
  distinctSorted ((lines.flatMap String.toList).filter (· ≠ emptySymbol))

/-- The alphabet of a grid: the symbols that it shows, filled up to its size by default symbols. -/
def inferAlphabet (size : Int) (lines : List String) : Except Fault (List String) :=
  let shown := shownSymbols lines
  if size < shown.length then .error (.tooManySymbols (shown.map String.singleton) size)
  else
    let missing := defaultSymbols.filter (· ∉ shown)
    .ok ((shown ++ missing.take (size - shown.length).toNat).map String.singleton)

end DancingLinks.Sudoku
