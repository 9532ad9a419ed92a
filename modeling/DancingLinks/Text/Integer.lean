import DancingLinks.Text.Blank
import DancingLinks.Text.Digit
import DancingLinks.Text.Quoted

/-!
# Integers and their numerals

A numeral is an optional sign and decimal digits of any script, with single underscores allowed
between two digits; blanks around it are skipped. `Integer.read` gives its value, or the reason why
there is none: the text is no numeral, or it has more digits than are converted.

The blanks around a numeral are those of `Text.isBlank` without the four ASCII separators U+001C to
U+001F.

The bound on the digits holds in both directions: `Integer.checkWritable` refuses a value whose
numeral would be too long to be read back.
-/

namespace DancingLinks.Text.Integer

/-- Why a text has no integer value, or an integer no text. -/
inductive Failure
  /-- The text is no numeral. -/
  | malformed (text : String)
  /-- The numeral has too many digits. -/
  | tooLong (digits : Nat)
  /-- The value has too many digits. -/
  | unwritable
  deriving DecidableEq, Repr

/-- The most digits that are converted. -/
def maxDigits : Nat := 4300

/-- What a message quotes of a text that is no numeral. -/
def shownLength : Nat := 200

/-- The text of a failure. -/
def Failure.message : Failure → String
  | .malformed text =>
    "invalid literal for int() with base 10: "
      ++ String.ofList ((quotedChars text.toList).take shownLength)
  | .tooLong digits =>
    s!"Exceeds the limit ({maxDigits} digits) for integer string conversion: "
      ++ s!"value has {digits} digits; use sys.set_int_max_str_digits() to increase the limit"
  | .unwritable =>
    s!"Exceeds the limit ({maxDigits} digits) for integer string conversion; "
      ++ "use sys.set_int_max_str_digits() to increase the limit"

/-- A blank that may stand around a numeral. -/
def isPadding (c : Char) : Bool := isBlank c && !(0x1C ≤ c.toNat && c.toNat ≤ 0x1F)

/-- The digits at the start of a text, underscores between them left out, and what follows them.
There is no result when a digit is missing: at the start and after an underscore. -/
def takeDigits (missing : Bool) : List Char → Option (List Nat × List Char)
  | [] => if missing then none else some ([], [])
  | c :: cs =>
    match digitValue? c with
    | some digit => (takeDigits false cs).map fun (digits, rest) => (digit :: digits, rest)
    | none =>
      if missing then none
      else if c = '_' then takeDigits true cs
      else some ([], c :: cs)

/-- The number that decimal digits stand for. -/
def ofDigits (digits : List Nat) : Nat := digits.foldl (fun n digit => 10 * n + digit) 0

/-- A sign at the start of a text, and what follows it. -/
def takeSign : List Char → Bool × List Char
  | '-' :: cs => (true, cs)
  | '+' :: cs => (false, cs)
  | cs => (false, cs)

/-- The value of a numeral. -/
def read (text : String) : Except Failure Int :=
  let (negative, cs) := takeSign (text.toList.dropWhile isPadding)
  match takeDigits true cs with
  | none => .error (.malformed text)
  | some (digits, rest) =>
    if maxDigits < digits.length then .error (.tooLong digits.length)
    else if rest.all isPadding then
      .ok (if negative then -(ofDigits digits : Int) else ofDigits digits)
    else .error (.malformed text)

/-- The least magnitude that has more digits than are converted. -/
def writeBound : Nat := Nat.pow 10 maxDigits

/-- Refuses an integer whose numeral has more digits than are converted; a sign is no digit. -/
def checkWritable (n : Int) : Except Failure Unit :=
  if n.natAbs < writeBound then .ok () else .error .unwritable

example : (read " -1_0\u3000").toOption = some (-10) := by decide +kernel

example : (read "1__0").toOption = none := by decide +kernel

end DancingLinks.Text.Integer
