/-!
# Coordinates

The coordinates of rectangles are words of 32 bits with a sign. A number of up to 64 bits becomes a
coordinate by losing its upper bits, so a number in the range of a word stays as it is
(`coordinate?_of_inRange`); a longer number becomes none.
-/

namespace DancingLinks.Viewer

/-- The word that the lowest 32 bits of a number make. -/
def word (n : Int) : Int := n.bmod 0x100000000

/-- The coordinate that a number becomes, unless it has more than 64 bits. -/
def coordinate? (n : Int) : Option Int :=
  if -0x8000000000000000 ≤ n ∧ n < 0x8000000000000000 then some (word n) else none

theorem word_of_inRange {n : Int} (low : -0x80000000 ≤ n) (high : n < 0x80000000) : word n = n :=
  Int.bmod_eq_of_le (by omega) (by omega)

/-- A number in the range of a word is its own coordinate. -/
theorem coordinate?_of_inRange {n : Int} (low : -0x80000000 ≤ n) (high : n < 0x80000000) :
    coordinate? n = some n := by
  rw [coordinate?, if_pos (by omega), word_of_inRange low high]

theorem word_inRange (n : Int) : -0x80000000 ≤ word n ∧ word n < 0x80000000 := by
  have low := Int.le_bmod (x := n) (m := 0x100000000) (by decide)
  have high := Int.bmod_lt (x := n) (m := 0x100000000) (by decide)
  unfold word
  omega

/-- Coordinates are words. -/
theorem eq_word_of_coordinate? {n c : Int} (h : coordinate? n = some c) : c = word n := by
  unfold coordinate? at h
  split at h
  · exact (Option.some.inj h).symm
  · cases h

/-- Coordinates are in the range of a word. -/
theorem inRange_of_coordinate? {n c : Int} (h : coordinate? n = some c) :
    -0x80000000 ≤ c ∧ c < 0x80000000 :=
  eq_word_of_coordinate? h ▸ word_inRange n

example : coordinate? (0x100000000 + 7) = some 7 := by decide +kernel

example : coordinate? 0x80000000 = some (-0x80000000) := by decide +kernel

end DancingLinks.Viewer
