import DancingLinks.Proofs.Text.Numeral
import Mathlib.Data.List.Basic
import Mathlib.Data.List.TakeWhile
import Mathlib.Data.Nat.Digits.Defs

/-!
# Texts of digits

A text of digits of any kind has a value when it can be converted (`Integer.Convertible`): all digits are
decimal, of whatever scripts, and there are not too many of them. It is read as that value
(`Integer.read_of_convertible`), whose own numeral is short enough again (`Integer.decimalValue_lt`); a
text of digits that can not be converted is not read (`Integer.read_of_not_convertible`). So the numeral
of a natural number is read back unless it is too long (`Integer.read_repr`, `Integer.read_repr_of_le`).
-/

namespace DancingLinks.Text

variable {c : Char} {cs : List Char} {n : Nat}

/-! ## Kinds of digits -/

/-- A decimal digit is one of the ten from the zero of its script on. -/
theorem exists_zero_of_isDecimal (decimal : isDecimal c = true) :
    ∃ base ∈ zeros, base ≤ c.toNat ∧ c.toNat < base + 10 := by
  obtain ⟨digit, value⟩ := Option.isSome_iff_exists.1 decimal
  obtain ⟨base, found, -⟩ := Option.map_eq_some_iff.1 value
  have within := List.find?_some found
  rw [Bool.and_eq_true, decide_eq_true_eq, decide_eq_true_eq] at within
  exact ⟨base, List.mem_of_find?_eq_some found, within⟩

/-- No digit is a blank. -/
theorem isBlank_of_isDigitSign (digit : isDigitSign c = true) : isBlank c = false := by
  have apart : ∀ base ∈ zeros, ∀ blank ∈ blankRanges, base + 10 ≤ blank.1 ∨ blank.2 < base := by
    decide +kernel
  have apart' : ∀ range ∈ digitSignRanges, ∀ blank ∈ blankRanges,
      range.2 < blank.1 ∨ blank.2 < range.1 := by decide +kernel
  rw [isBlank, inRanges, List.any_eq_false]
  intro blank mem
  rw [Bool.and_eq_true, decide_eq_true_eq, decide_eq_true_eq]
  rcases Bool.or_eq_true_iff.1 digit with decimal | sign
  · obtain ⟨base, there, within⟩ := exists_zero_of_isDecimal decimal
    have := apart base there blank mem
    omega
  · obtain ⟨range, there, within⟩ := List.any_eq_true.1 sign
    rw [Bool.and_eq_true, decide_eq_true_eq, decide_eq_true_eq] at within
    have := apart' range there blank mem
    omega

theorem isDigitSign_of_isDecimal (decimal : isDecimal c = true) : isDigitSign c = true := by
  rw [isDigitSign, decimal, Bool.true_or]

/-- What is no decimal digit has no value. -/
theorem digitValue?_eq_none (other : isDecimal c = false) : digitValue? c = none :=
  Option.isNone_iff_eq_none.1 (Option.isSome_eq_false_iff.1 other)

/-! ## Reading digits -/

namespace Integer

variable {rest : List Char} {missing : Bool} {text : String}

/-- Decimal digits are taken up to what is none of them, and no underscore. -/
theorem takeDigits_append (decimal : ∀ c ∈ cs, isDecimal c = true)
    (there : missing = true → cs ≠ []) (stop : ∀ c ∈ rest.head?, isDecimal c = false ∧ c ≠ '_') :
    takeDigits missing (cs ++ rest) = some (cs.filterMap digitValue?, rest) := by
  induction cs generalizing missing with
  | nil =>
    have there : missing = false := Bool.eq_false_iff.2 fun missing => there missing rfl
    cases rest with
    | nil => rw [there]; rfl
    | cons c rest =>
      obtain ⟨other, differs⟩ := stop c rfl
      simp [takeDigits, digitValue?_eq_none other, there, differs]
  | cons c cs ih =>
    obtain ⟨first, others⟩ := List.forall_mem_cons.1 decimal
    obtain ⟨digit, value⟩ := Option.isSome_iff_exists.1 first
    have taken : takeDigits false (cs ++ rest) = some (cs.filterMap digitValue?, rest) :=
      ih others nofun
    simp only [List.cons_append, takeDigits, value, taken, List.filterMap_cons]
    rfl

/-- No padding and no sign stands before digits. -/
theorem takeSign_of_isDigitSign (digits : ∀ c ∈ cs, isDigitSign c = true) :
    takeSign (cs.dropWhile isPadding) = (false, cs) := by
  cases cs with
  | nil => rfl
  | cons c cs =>
    have digit := digits c List.mem_cons_self
    have solid : ¬isPadding c = true := by simp [isPadding, isBlank_of_isDigitSign digit]
    rw [List.dropWhile_cons_of_neg solid]
    unfold takeSign
    split
    · next eq => cases eq; exact absurd digit (by decide +kernel)
    · next eq => cases eq; exact absurd digit (by decide +kernel)
    · rfl

/-- The text can be converted: it consists of decimal digits, which are not too many. -/
structure Convertible (text : String) : Prop where
  decimal : ∀ c ∈ text.toList, isDecimal c = true
  short : text.toList.length ≤ maxDigits

/-- The number that the decimal digits of a text give. -/
def decimalValue (text : String) : Nat := ofDigits (text.toList.filterMap digitValue?)

/-- Why a text of digits is not converted: there are too many decimal digits at its start, or a digit
that is not decimal follows them. -/
def refusal (text : String) : Failure :=
  let digits := text.toList.takeWhile isDecimal
  if maxDigits < digits.length then .tooLong digits.length else .malformed text

/-- Every decimal digit has a value. -/
theorem length_filterMap_digitValue? (decimal : ∀ c ∈ cs, isDecimal c = true) :
    (cs.filterMap digitValue?).length = cs.length := by
  rw [List.length_filterMap_eq_countP, List.countP_eq_length]
  exact decimal

/-- A text that can be converted is read as its value. -/
theorem read_of_convertible (there : text.toList ≠ []) (convertible : Convertible text) :
    read text = .ok (decimalValue text) := by
  obtain ⟨decimal, short⟩ := convertible
  have sign := takeSign_of_isDigitSign fun c mem => isDigitSign_of_isDecimal (decimal c mem)
  have taken : takeDigits true (text.toList ++ []) = some (text.toList.filterMap digitValue?, []) :=
    takeDigits_append decimal (fun _ => there) nofun
  rw [List.append_nil] at taken
  unfold read
  rw [sign]
  simp only [taken, length_filterMap_digitValue? decimal, if_neg (Nat.not_lt.2 short)]
  rfl

example : (read "3\u0969\u0663").toOption = some 333 := by decide +kernel

/-- No digit is taken where another character stands. -/
theorem takeDigits_eq_none (stop : ∀ c ∈ cs.head?, isDecimal c = false) :
    takeDigits true cs = none := by
  cases cs with
  | nil => rfl
  | cons c rest => simp [takeDigits, digitValue?_eq_none (stop c rfl)]

/-- What follows the decimal digits of a text of digits begins with a digit of another kind. -/
theorem head?_dropWhile_isDecimal (digits : ∀ c ∈ cs, isDigitSign c = true) :
    ∀ c ∈ (cs.dropWhile isDecimal).head?, isDecimal c = false ∧ c ≠ '_' := by
  intro c first
  have mem : c ∈ cs := (List.dropWhile_suffix _).subset (List.mem_of_mem_head? first)
  have stopped := List.head?_dropWhile_not isDecimal cs
  rw [Option.mem_def.1 first] at stopped
  refine ⟨by simpa using stopped, ?_⟩
  rintro rfl
  exact absurd (digits _ mem) (by decide +kernel)

/-- A text of digits that can not be converted is not read. -/
theorem read_of_not_convertible (digits : ∀ c ∈ text.toList, isDigitSign c = true)
    (refused : ¬Convertible text) : read text = .error (refusal text) := by
  have decimal : ∀ c ∈ text.toList.takeWhile isDecimal, isDecimal c = true := fun c mem =>
    List.all_eq_true.1 List.all_takeWhile c mem
  have parts : text.toList.takeWhile isDecimal ++ text.toList.dropWhile isDecimal = text.toList :=
    List.takeWhile_append_dropWhile
  have stop := head?_dropWhile_isDecimal digits
  unfold read refusal
  rw [takeSign_of_isDigitSign digits]
  by_cases empty : text.toList.takeWhile isDecimal = []
  · rw [empty, List.nil_append] at parts
    rw [parts] at stop
    simp only [takeDigits_eq_none fun c first => (stop c first).1, empty]
    rfl
  · have there : true = true → text.toList.takeWhile isDecimal ≠ [] := fun _ => empty
    have taken := takeDigits_append decimal there stop
    rw [parts] at taken
    simp only [taken, length_filterMap_digitValue? decimal]
    split
    · rfl
    · next short =>
      -- The decimal digits are not too many, so they are not all of the text.
      cases left : text.toList.dropWhile isDecimal with
      | nil =>
        rw [left, List.append_nil] at parts
        rw [parts] at decimal short
        exact absurd ⟨decimal, Nat.not_lt.1 short⟩ refused
      | cons c rest =>
        have mem : c ∈ text.toList := parts ▸ left ▸ List.mem_append_right _ List.mem_cons_self
        have solid : isPadding c = false := by
          simp [isPadding, isBlank_of_isDigitSign (digits c mem)]
        simp [solid]

/-! ## Numerals of natural numbers -/

theorem filterMap_digitValue? (digits : ∀ c ∈ cs, c.isDigit = true) :
    cs.filterMap digitValue? = cs.map (·.toNat - '0'.toNat) :=
  List.filterMap_eq_map_iff_forall_eq_some.2 fun c mem => digitValue?_of_isDigit (digits c mem)

/-- The decimal digits of a numeral give its number. -/
theorem decimalValue_repr (n : Nat) : decimalValue n.repr = n := by
  rw [decimalValue, filterMap_digitValue? fun c => isDigit_of_mem_repr, ofDigits, List.foldl_map,
    ← Nat.ofDigitChars_eq_foldl, Nat.toList_repr, Nat.ofDigitChars_ten_toDigits]

/-- A numeral consists of decimal digits. -/
theorem isDecimal_of_mem_repr (mem : c ∈ n.repr.toList) : isDecimal c = true :=
  isDecimal_of_isDigit (isDigit_of_mem_repr mem)

/-- A numeral that is short enough is read back. -/
theorem read_repr (short : n < writeBound) : read n.repr = .ok (n : Int) := by
  unfold writeBound at short
  have convertible : Convertible n.repr :=
    ⟨fun c => isDecimal_of_mem_repr, length_repr_le (by decide) short⟩
  rw [read_of_convertible (repr_ne_nil n) convertible, decimalValue_repr]

/-- A numeral that is not short enough is not read. -/
theorem read_repr_of_le (long : writeBound ≤ n) :
    read n.repr = .error (.tooLong n.repr.toList.length) := by
  unfold writeBound at long
  have long : maxDigits < n.repr.toList.length := lt_length_repr (by decide) long
  have refused : ¬Convertible n.repr := fun convertible => Nat.not_le.2 long convertible.short
  have whole : n.repr.toList.takeWhile isDecimal = n.repr.toList :=
    List.takeWhile_eq_self_iff.2 fun c => isDecimal_of_mem_repr
  rw [read_of_not_convertible (fun c mem => isDigitSign_of_isDecimal (isDecimal_of_mem_repr mem))
    refused, refusal, whole]
  exact congrArg _ (if_pos long)

/-- Few digits give a number below a power of ten. -/
theorem decimalValue_lt_pow {k : Nat} (decimal : ∀ c ∈ text.toList, isDecimal c = true)
    (short : text.toList.length ≤ k) : decimalValue text < Nat.pow 10 k := by
  have small : ∀ digit ∈ (text.toList.filterMap digitValue?).reverse, digit < 10 := by
    intro digit mem
    obtain ⟨c, -, value⟩ := List.mem_filterMap.1 (List.mem_reverse.1 mem)
    exact digitValue?_lt value
  have reversed : Nat.ofDigits 10 (text.toList.filterMap digitValue?).reverse = decimalValue text := by
    rw [decimalValue, ofDigits, Nat.ofDigits_eq_foldr, List.foldr_reverse]
    simp only [Nat.cast_id, Nat.add_comm]
  have bound := Nat.ofDigits_lt_base_pow_length (by decide) small
  rw [reversed, List.length_reverse, length_filterMap_digitValue? decimal] at bound
  exact Nat.lt_of_lt_of_le bound (Nat.pow_le_pow_right (by decide) short)

/-- The value of a text that can be converted has a numeral that is short enough. -/
theorem decimalValue_lt (convertible : Convertible text) : decimalValue text < writeBound := by
  unfold writeBound
  exact decimalValue_lt_pow convertible.decimal convertible.short

end Integer

end DancingLinks.Text
