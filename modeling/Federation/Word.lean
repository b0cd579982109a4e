/-! # Machine words

The bounds of integers of 64 bits, without and with sign.

* `isUnsigned_iff`, `isSigned_iff` — the integers that fit.
* `add?_eq_some_iff` — a sum is exact or there is none. -/

namespace Federation.Word

/-- The number of words of 64 bits. -/
def count : Nat := 18446744073709551616

/-- The greatest word without sign. -/
def maxUnsigned : Nat := count - 1

/-- The number of words of 64 bits with a negative sign. -/
def negativeCount : Nat := 9223372036854775808

/-- Whether an integer is a word without sign. -/
def isUnsigned (n : Int) : Bool := decide (0 ≤ n) && decide (n < count)

/-- Whether an integer is a word with sign. -/
def isSigned (n : Int) : Bool := decide (-(negativeCount : Int) ≤ n) && decide (n < negativeCount)

theorem isUnsigned_iff (n : Int) : isUnsigned n = true ↔ 0 ≤ n ∧ n < count := by
  simp [isUnsigned]

theorem isSigned_iff (n : Int) :
    isSigned n = true ↔ -(negativeCount : Int) ≤ n ∧ n < negativeCount := by
  simp [isSigned]

/-- The sum of two words with sign, if it is such a word. -/
def add? (a b : Int) : Option Int := if isSigned (a + b) then some (a + b) else none

theorem add?_eq_some_iff (a b c : Int) :
    add? a b = some c ↔ isSigned (a + b) = true ∧ a + b = c := by
  unfold add?
  split <;> simp_all

end Federation.Word
