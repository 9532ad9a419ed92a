import DancingLinks.Proofs.Text.Words
import DancingLinks.Text.Integer

/-!
# Numerals of natural numbers

The decimal numeral of a natural number consists of ASCII digits, as many as the number needs
(`length_repr_le`, `lt_length_repr`), and no blank or separator stands in it. Different numbers have different
numerals (`repr_inj`).
-/

namespace DancingLinks.Text

variable {c : Char} {cs : List Char} {n : Nat}

/-! ## ASCII digits -/

/-- The code points of the ASCII digits. -/
theorem toNat_of_isDigit (digit : c.isDigit = true) : 48 ≤ c.toNat ∧ c.toNat ≤ 57 := by
  simp only [Char.isDigit, Bool.and_eq_true, decide_eq_true_eq] at digit
  exact digit

theorem digitValue?_of_isDigit (digit : c.isDigit = true) :
    digitValue? c = some (c.toNat - '0'.toNat) := by
  obtain ⟨low, high⟩ := toNat_of_isDigit digit
  have first : (decide (0x30 ≤ c.toNat) && decide (c.toNat < 0x30 + 10)) = true := by
    simp only [Bool.and_eq_true, decide_eq_true_eq]
    omega
  have found : zeros.find? (fun base => base ≤ c.toNat && c.toNat < base + 10) = some 0x30 :=
    List.find?_cons_of_pos first
  rw [digitValue?, found]
  rfl

/-- Digits are decimal digits. -/
theorem isDecimal_of_isDigit (digit : c.isDigit = true) : isDecimal c = true := by
  rw [isDecimal, digitValue?_of_isDigit digit]
  rfl

/-- A numeral is a word of digits. -/
theorem isDigit_of_mem_repr (mem : c ∈ n.repr.toList) : c.isDigit = true := by
  rw [Nat.toList_repr] at mem
  exact Nat.isDigit_of_mem_toDigits (by decide) (by decide) mem

theorem repr_ne_nil (n : Nat) : n.repr.toList ≠ [] := by
  rw [Nat.toList_repr]
  exact Nat.toDigits_ne_nil

/-- A numeral is free of everything that is no digit. -/
theorem not_mem_repr (other : c.isDigit = false) : c ∉ n.repr.toList := fun mem => by
  rw [isDigit_of_mem_repr mem] at other
  cases other

/-- Different numbers have different numerals. -/
theorem repr_inj {k : Nat} (same : n.repr.toList = k.repr.toList) : n = k := by
  rw [Nat.toList_repr, Nat.toList_repr] at same
  rw [← Nat.ofDigitChars_ten_toDigits (n := n), same, Nat.ofDigitChars_ten_toDigits]

/-- Numbers below a power of ten have few digits. -/
theorem length_repr_le {k : Nat} (pos : 0 < k) (short : n < Nat.pow 10 k) :
    n.repr.toList.length ≤ k := by
  rw [Nat.toList_repr, Nat.length_toDigits_le_iff (by decide) pos]
  exact short

/-- Numbers from a power of ten on have more digits. -/
theorem lt_length_repr {k : Nat} (pos : 0 < k) (long : Nat.pow 10 k ≤ n) :
    k < n.repr.toList.length := by
  rw [Nat.toList_repr, ← Nat.not_le, Nat.length_toDigits_le_iff (by decide) pos]
  exact Nat.not_lt.2 long

/-- An integer that is not negative is written without a sign. -/
theorem toString_of_nonneg {i : Int} (nonneg : 0 ≤ i) : toString i = i.toNat.repr := by
  rw [Int.toString_eq_repr, Int.repr_eq_if, if_pos nonneg]

/-- An integer is written with digits and a minus sign at most. -/
theorem of_mem_toString {i : Int} (mem : c ∈ (toString i).toList) : c.isDigit = true ∨ c = '-' := by
  rw [Int.toString_eq_repr, Int.repr_eq_if] at mem
  split at mem
  · exact .inl (isDigit_of_mem_repr mem)
  · rw [String.toList_append, List.mem_append] at mem
    rcases mem with minus | digit
    · exact .inr (List.mem_singleton.1 minus)
    · exact .inl (isDigit_of_mem_repr digit)

/-- Different integers are written differently. -/
theorem toString_inj {i j : Int} (same : (toString i).toList = (toString j).toList) : i = j := by
  have noMinus : ∀ {n : Nat} {text : String}, n.repr.toList ≠ ("-" ++ text).toList := by
    intro n text eq
    have mem : '-' ∈ n.repr.toList := by
      rw [eq, String.toList_append]
      exact List.mem_append_left _ (List.mem_singleton.2 rfl)
    exact not_mem_repr (by decide) mem
  rw [Int.toString_eq_repr, Int.toString_eq_repr, Int.repr_eq_if, Int.repr_eq_if] at same
  split at same
  · split at same
    · have := repr_inj same
      omega
    · exact absurd same noMinus
  · split at same
    · exact absurd same.symm noMinus
    · rw [String.toList_append, String.toList_append] at same
      have := repr_inj (List.append_cancel_left same)
      omega

end DancingLinks.Text
