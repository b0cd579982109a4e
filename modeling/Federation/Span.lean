/-! # Spans of time and their text

A `Span` is a whole number of nanoseconds.  It is written in the largest unit of `s`, `ms`, `µs`
and `ns` in which it is at least one, with the exact decimal fraction: `60s`, `1.5ms`, `0ns`.

* `ofMillis_toMillis_le` — reading a span in milliseconds rounds down. -/

namespace Federation

/-- A length of time. -/
structure Span where
  nanos : Nat
  deriving DecidableEq, Repr

namespace Span

/-- A span of whole milliseconds. -/
def ofMillis (ms : Nat) : Span := ⟨ms * 1000000⟩

/-- A span of whole seconds and some nanoseconds; a full second of nanoseconds carries. -/
def ofParts (secs nanos : Nat) : Span := ⟨secs * 1000000000 + nanos⟩

/-- The whole milliseconds of a span. -/
def toMillis (d : Span) : Nat := d.nanos / 1000000

@[simp] theorem toMillis_ofMillis (ms : Nat) : (ofMillis ms).toMillis = ms := by
  simp [ofMillis, toMillis]

theorem ofMillis_toMillis_le (d : Span) : (ofMillis d.toMillis).nanos ≤ d.nanos :=
  Nat.div_mul_le_self d.nanos 1000000

/-- The last `width` decimal digits of `n`, most significant first. -/
def digits : Nat → Nat → List Char
  | 0, _ => []
  | width + 1, n => digits width (n / 10) ++ [Nat.digitChar (n % 10)]

theorem length_digits (width n : Nat) : (digits width n).length = width := by
  induction width generalizing n with
  | zero => rfl
  | succ w ih => simp [digits, ih]

/-- `part` as the fraction of a unit of `10 ^ width` parts: a point and its digits without the
    trailing zeros, or nothing if there are none left. -/
def fraction (width part : Nat) : String :=
  let ds := ((digits width part).reverse.dropWhile (· = '0')).reverse
  if ds.isEmpty then "" else "." ++ String.ofList ds

/-- The text of a span in units of `10 ^ width` nanoseconds. -/
def inUnit (width : Nat) (symbol : String) (d : Span) : String :=
  toString (d.nanos / Nat.pow 10 width) ++ fraction width (d.nanos % Nat.pow 10 width) ++ symbol

/-- The text of a span. -/
def text (d : Span) : String :=
  if d.nanos ≥ 1000000000 then d.inUnit 9 "s"
  else if d.nanos ≥ 1000000 then d.inUnit 6 "ms"
  else if d.nanos ≥ 1000 then d.inUnit 3 "µs"
  else d.inUnit 0 "ns"

end Span

end Federation
