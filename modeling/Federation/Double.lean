/-! # Doubles

A double is a binary fraction whose significand has at most 53 bits and whose last bit counts at
least `2 ^ -1074`.  Only finite doubles occur here: an operation whose result would be infinite has
none.  All arithmetic is on natural numbers and is exact up to the one rounding at its end.

* `roundDiv_le`, `le_roundDiv` — rounding moves a quotient by at most one half.
* `roundDiv_mul_left` — a whole quotient is kept.
* `isReadFrom_of_multiple?` — the digits that are chosen for a double are read as it. -/

namespace Federation

/-- A quotient as a whole number: the nearest one, and of two that are equally near the even one. -/
def roundDiv (n d : Nat) : Nat :=
  let q := n / d
  let r := n % d
  if 2 * r < d ∨ (2 * r = d ∧ q % 2 = 0) then q else q + 1

theorem roundDiv_le (n d : Nat) : 2 * (roundDiv n d * d) ≤ 2 * n + d := by
  have parts := Nat.div_add_mod n d
  rw [Nat.mul_comm] at parts
  unfold roundDiv
  dsimp only
  split
  · omega
  · rw [Nat.add_mul, Nat.one_mul]
    omega

theorem le_roundDiv {n d : Nat} (pos : 0 < d) : 2 * n ≤ 2 * (roundDiv n d * d) + d := by
  have parts := Nat.div_add_mod n d
  have small := Nat.mod_lt n pos
  rw [Nat.mul_comm] at parts
  unfold roundDiv
  dsimp only
  split
  · omega
  · rw [Nat.add_mul, Nat.one_mul]
    omega

theorem roundDiv_mul_left {d : Nat} (pos : 0 < d) (n : Nat) : roundDiv (n * d) d = n := by
  simp [roundDiv, pos]

/-- A finite double `± significand · 2 ^ exponent`.  The significand has all 53 bits unless the
    exponent is the least one. -/
structure Double where
  negative : Bool
  significand : Nat
  exponent : Int
  deriving DecidableEq, Repr

namespace Double

/-- The exponent of the least double. -/
def leastExponent : Int := -1074

/-- The exponent of the greatest double. -/
def greatestExponent : Int := 971

def zero : Double := ⟨false, 0, leastExponent⟩

/-- The numerator of the size of a double. -/
def numerator (x : Double) : Nat := x.significand * Nat.pow 2 x.exponent.toNat

/-- The denominator of the size of a double. -/
def denominator (x : Double) : Nat := Nat.pow 2 (-x.exponent).toNat

/-- The exponent for a quotient: with it, the significand has 53 bits, or fewer if the exponent is
    the least one. -/
def exponentOf (n d : Nat) : Int :=
  let k : Int := (n.log2 : Int) - d.log2
  -- The quotient is between `2 ^ (k - 1)` and `2 ^ (k + 1)`.
  let top := if n * Nat.pow 2 (-k).toNat < d * Nat.pow 2 k.toNat then k - 1 else k
  max (top - 52) leastExponent

/-- The double nearest to a quotient, if it is finite. -/
def ofRatio? (n d : Nat) : Option Double :=
  if d = 0 then none
  else if n = 0 then some zero
  else
    let e := exponentOf n d
    let m := roundDiv (n * Nat.pow 2 (-e).toNat) (d * Nat.pow 2 e.toNat)
    -- Rounding up may carry into a bit of its own.
    let (m, e) := if m = Nat.pow 2 53 then (Nat.pow 2 52, e + 1) else (m, e)
    if e ≤ greatestExponent then some ⟨false, m, e⟩ else none

/-- A double with the sign changed. -/
def neg (x : Double) : Double := { x with negative := !x.negative }

/-- The product. -/
def mul? (x y : Double) : Option Double :=
  (ofRatio? (x.numerator * y.numerator) (x.denominator * y.denominator)).map fun z =>
    { z with negative := x.negative != y.negative }

/-- The quotient. -/
def div? (x y : Double) : Option Double :=
  (ofRatio? (x.numerator * y.denominator) (x.denominator * y.numerator)).map fun z =>
    { z with negative := x.negative != y.negative }

/-- The double nearest to a power of ten. -/
def tenTo? (n : Nat) : Option Double := ofRatio? (Nat.pow 10 n) 1

/-- The exponent of the greatest power of ten. -/
def greatestTen : Nat := 308

/-- A double divided by the greatest power of ten, several times. -/
def lower? : (steps : Nat) → Double → Option Double
  | 0, x => some x
  | steps + 1, x => ((tenTo? greatestTen).bind x.div?).bind (lower? steps)

/-- A double times a power of ten.  The power is a double itself, so the result may be a few doubles
    away from the nearest one.  A power that is too small to be a double is divided by in steps. -/
def scale? (x : Double) (exponent : Int) : Option Double :=
  if x.significand = 0 then some x
  else if 0 ≤ exponent then
    if exponent ≤ greatestTen then (tenTo? exponent.toNat).bind x.mul? else none
  else
    let places := exponent.natAbs
    let steps := (places - 1) / greatestTen
    -- Three steps take the greatest double to zero, where it stays.
    (x.lower? (min steps 3)).bind fun y => (tenTo? (places - greatestTen * steps)).bind y.div?

/-! ## Shortest decimals -/

/-- Whether a decimal `digits · 10 ^ place` is read as the size of a double. -/
def isReadFrom (x : Double) (digits : Nat) (place : Int) : Bool :=
  ofRatio? (digits * Nat.pow 10 place.toNat) (Nat.pow 10 (-place).toNat) ==
    some { x with negative := false }

/-- The multiple of `10 ^ place` that is read as the size of a double: one of the two next to it,
    and the nearer one if both are. -/
def multiple? (x : Double) (place : Int) : Option Nat :=
  let n := x.numerator * Nat.pow 10 (-place).toNat
  let d := x.denominator * Nat.pow 10 place.toNat
  [roundDiv n d, n / d, n / d + 1].find? fun digits => x.isReadFrom digits place

theorem isReadFrom_of_multiple? {x : Double} {place : Int} {digits : Nat}
    (h : x.multiple? place = some digits) : x.isReadFrom digits place = true := by
  unfold multiple? at h
  exact List.find?_some (p := fun digits => x.isReadFrom digits place) h

/-- The shortest decimal that is read as the size of a double: its digits as a number, and the place
    of the last one. -/
def shortest (x : Double) : Nat × Int :=
  if x.significand = 0 then (0, 0) else
  let top : Int := (Nat.toDigits 10 (x.numerator / x.denominator)).length
  -- Between any two doubles there is a multiple of `10 ^ -324`.
  ((List.range 330).findSome? fun i =>
    let place := top - (i : Nat)
    (x.multiple? place).map fun digits => (digits, place)).getD (0, 0)

end Double

end Federation
