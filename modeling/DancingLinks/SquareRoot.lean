import DancingLinks.Fault

/-!
# Square roots

The integer square root rounds down (`isqrt_spec`); a number is a perfect square when its root
squared gives it back. `realRoot?` is the root of a perfect square as floating-point arithmetic
finds it: the number must be in the range of double precision, and the root must have at most as
many significant bits as a double holds.
-/

namespace DancingLinks

/-- The integer square root of `n`, two binary digits at a time; `fuel` bounds their number. -/
def isqrtFuel : (fuel : Nat) → Nat → Nat
  | 0, _ => 0
  | fuel + 1, n =>
    if n = 0 then 0
    else
      let root := 2 * isqrtFuel fuel (n / 4)
      if (root + 1) * (root + 1) ≤ n then root + 1 else root

/-- The integer square root. -/
def isqrt (n : Nat) : Nat := isqrtFuel (n.log2 + 1) n

theorem isqrtFuel_spec {fuel n : Nat} (enough : n < 1 <<< fuel) :
    isqrtFuel fuel n * isqrtFuel fuel n ≤ n ∧
      n < (isqrtFuel fuel n + 1) * (isqrtFuel fuel n + 1) := by
  induction fuel generalizing n with
  | zero => simp at enough; simp [isqrtFuel, enough]
  | succ fuel ih =>
    unfold isqrtFuel
    split
    · next h => simp [h]
    · next h =>
      have small : n / 4 < 1 <<< fuel := by rw [Nat.shiftLeft_succ] at enough; omega
      obtain ⟨low, high⟩ := ih small
      generalize isqrtFuel fuel (n / 4) = r at low high
      have e1 : 2 * r * (2 * r) = 4 * (r * r) := by grind
      have e2 : (2 * r + 1 + 1) * (2 * r + 1 + 1) = 4 * ((r + 1) * (r + 1)) := by grind
      simp only
      split
      · next up => exact ⟨up, by omega⟩
      · next down => exact ⟨by omega, by omega⟩

/-- The integer square root is the largest number whose square is not greater. -/
theorem isqrt_spec (n : Nat) : isqrt n * isqrt n ≤ n ∧ n < (isqrt n + 1) * (isqrt n + 1) :=
  isqrtFuel_spec (by rw [Nat.shiftLeft_eq, Nat.one_mul]; exact Nat.lt_log2_self)

/-- The value is a perfect square. Negative values have no integer square root. -/
def isPerfectSquare (value : Int) : Except Fault Bool :=
  if value < 0 then .error .negativeSquareRoot
  else
    let n := value.toNat
    .ok (isqrt n * isqrt n == n)

/-- The number of significant binary digits of a double. -/
def doubleBits : Nat := 53

/-- The least integer that is rounded to no double. -/
def doubleBound : Nat := 1 <<< 1024 - 1 <<< 970

/-- The number has at most `bits` significant binary digits: the lowest bits of a longer one are
zero. -/
def fitsBits (bits n : Nat) : Bool := n % 1 <<< (n.log2 + 1 - bits) == 0

/-- The root of a perfect square, as floating-point arithmetic finds it; `none` when the value is no
perfect square or the root is no double. -/
def realRoot? (value : Int) : Except Fault (Option Nat) :=
  if doubleBound ≤ value.natAbs then .error .floatRange
  else if value < 0 then .error .complexSquareRoot
  else
    let root := isqrt value.toNat
    .ok (if root * root = value.toNat ∧ fitsBits doubleBits root then some root else none)

end DancingLinks
