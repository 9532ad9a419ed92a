/-!
# Reading UTF-8

Strict decoding of bytes into characters. Bytes that are no UTF-8 are reported with the place of
the first fault, the bytes that belong to it, and the reason: a byte that starts no character, a
byte that does not continue the character begun, or an end of the data within a character.
-/

namespace DancingLinks.Text.Utf8

/-- Why some bytes are no character. -/
inductive Reason
  | badStart
  | badContinuation
  | truncated
  deriving DecidableEq, Repr

/-- The wording of a reason. -/
def Reason.text : Reason → String
  | .badStart => "invalid start byte"
  | .badContinuation => "invalid continuation byte"
  | .truncated => "unexpected end of data"

/-- The first fault in some bytes: `length` bytes from `position` on, the first of them `byte`. -/
structure Failure where
  byte : UInt8
  position : Nat
  length : Nat
  reason : Reason
  deriving DecidableEq, Repr

/-- The text of a failure. -/
def Failure.message (f : Failure) : String :=
  let digit (n : Nat) : String := String.singleton (Nat.digitChar n)
  let place :=
    if f.length = 1 then
      s!"byte 0x{digit (f.byte.toNat / 16)}{digit (f.byte.toNat % 16)} in position {f.position}"
    else s!"bytes in position {f.position}-{f.position + f.length - 1}"
  s!"'utf-8' codec can't decode {place}: {f.reason.text}"

/-- The form of a character that starts with some byte: the bits the byte contributes, the range of
the second byte, and how many more bytes follow that one. -/
structure Form where
  bits : Nat
  low : UInt8
  high : UInt8
  more : Nat

/-- The form that a first byte announces; the range of the second byte leaves out longer forms than
needed, surrogates, and numbers that are no code point. -/
def form? (first : UInt8) : Option Form :=
  let n := first.toNat
  if 0xC2 ≤ n ∧ n ≤ 0xDF then some ⟨n - 0xC0, 0x80, 0xBF, 0⟩
  else if 0xE0 ≤ n ∧ n ≤ 0xEF then
    some ⟨n - 0xE0, if n = 0xE0 then 0xA0 else 0x80, if n = 0xED then 0x9F else 0xBF, 1⟩
  else if 0xF0 ≤ n ∧ n ≤ 0xF4 then
    some ⟨n - 0xF0, if n = 0xF0 then 0x90 else 0x80, if n = 0xF4 then 0x8F else 0xBF, 2⟩
  else none

/-- The six bits of a continuation byte added to `code`. -/
def extend (code : Nat) (byte : UInt8) : Nat := code * 64 + (byte.toNat - 0x80)

/-- A character in the making: the byte it starts with, the bytes read for it, its bits so far, the
range of the next byte and the number of bytes after that one. -/
structure Pending where
  first : UInt8
  taken : Nat
  code : Nat
  low : UInt8
  high : UInt8
  more : Nat

/-- Decodes bytes of which the first stands at `position`, within a character if one is pending. -/
def decodeFrom (position : Nat) (pending : Option Pending) :
    List UInt8 → Except Failure (List Char)
  | [] =>
    match pending with
    | none => .ok []
    | some p => .error ⟨p.first, position - p.taken, p.taken, .truncated⟩
  | byte :: bytes =>
    match pending with
    | none =>
      if byte < 0x80 then (decodeFrom (position + 1) none bytes).map (Char.ofNat byte.toNat :: ·)
      else
        match form? byte with
        | none => .error ⟨byte, position, 1, .badStart⟩
        | some f => decodeFrom (position + 1) (some ⟨byte, 1, f.bits, f.low, f.high, f.more⟩) bytes
    | some p =>
      if p.low ≤ byte ∧ byte ≤ p.high then
        let code := extend p.code byte
        match p.more with
        | 0 => (decodeFrom (position + 1) none bytes).map (Char.ofNat code :: ·)
        | more + 1 =>
          decodeFrom (position + 1) (some ⟨p.first, p.taken + 1, code, 0x80, 0xBF, more⟩) bytes
      else .error ⟨p.first, position - p.taken, p.taken, .badContinuation⟩

/-- The text that bytes encode. -/
def decode (bytes : List UInt8) : Except Failure String :=
  (decodeFrom 0 none bytes).map String.ofList

example : (decode [0x61, 0xE2, 0x82, 0xAC]).toOption = some "a\u20ac" := by decide +kernel

example : (match decode [0x61, 0xE2, 0x82] with | .error f => some f.reason | .ok _ => none)
    = some .truncated := by decide +kernel

end DancingLinks.Text.Utf8
