import DancingLinks.Text.Printable

/-!
# Quoted text

Error messages show a text in quotes, with everything that is not printable escaped. The quotes are
single ones, unless the text holds a single quote and no double one; the quote that is used and the
backslash are escaped by a backslash. Lists of texts are shown in brackets.
-/

namespace DancingLinks.Text

/-- The single quote. -/
def singleQuote : Char := '\x27'

/-- The double quote. -/
def doubleQuote : Char := '\x22'

/-- The backslash. -/
def backslash : Char := '\x5C'

/-- The `width` lowest hexadecimal digits of `n`. -/
def hexDigits (n : Nat) : (width : Nat) → List Char
  | 0 => []
  | width + 1 => hexDigits (n / 16) width ++ [Nat.digitChar (n % 16)]

/-- A code point as an escape with two, four or eight hexadecimal digits, whichever is enough. -/
def escapeCode (code : Nat) : List Char :=
  if code < 0x100 then backslash :: 'x' :: hexDigits code 2
  else if code < 0x10000 then backslash :: 'u' :: hexDigits code 4
  else backslash :: 'U' :: hexDigits code 8

/-- How a character is written between quotes of the given kind. -/
def escape (quote c : Char) : List Char :=
  if c = quote ∨ c = backslash then [backslash, c]
  else if c = '\t' then [backslash, 't']
  else if c = '\n' then [backslash, 'n']
  else if c = '\r' then [backslash, 'r']
  else if isPrintable c then [c]
  else escapeCode c.toNat

/-- The quote a text is put between. -/
def quoteFor (cs : List Char) : Char :=
  if singleQuote ∈ cs ∧ doubleQuote ∉ cs then doubleQuote else singleQuote

/-- A text in quotes, as characters. -/
def quotedChars (cs : List Char) : List Char :=
  let quote := quoteFor cs
  quote :: cs.flatMap (escape quote) ++ [quote]

/-- A text in quotes. -/
def quoted (s : String) : String := String.ofList (quotedChars s.toList)

/-- Texts in brackets, separated by commas. -/
def bracketed (texts : List String) : String :=
  "[" ++ ", ".intercalate texts ++ "]"

/-- A list of texts, each in quotes. -/
def quotedList (texts : List String) : String := bracketed (texts.map quoted)

example : quoted "it's" = "\"it's\"" := by decide +kernel

example : quotedList ["a", "\u200b\n"] = "['a', '\\u200b\\n']" := by decide +kernel

end DancingLinks.Text
