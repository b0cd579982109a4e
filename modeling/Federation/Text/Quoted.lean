import Federation.Text.Unprintable

/-! # Quoted text

Diagnostics show a text between double quotes.  The quote, the backslash, the line feed, the tab,
the carriage return and the null character are escaped by a letter, every other character that
does not print on its own by its code in hexadecimal.

* `escape_eq_self` — a letter, a digit or any other plain character stands for itself. -/

namespace Federation.Text

/-- The hexadecimal digits of `n`, most significant first, without padding. -/
def hexDigits (n : Nat) : List Char := Nat.toDigits 16 n

/-- One character of a quoted text. -/
def escape (c : Char) : List Char :=
  if c = '"' then ['\\', '"']
  else if c = '\\' then ['\\', '\\']
  else if c = '\n' then ['\\', 'n']
  else if c = '\t' then ['\\', 't']
  else if c = '\r' then ['\\', 'r']
  else if c = '\x00' then ['\\', '0']
  else if isUnprintable c then ['\\', 'u', '\x7b'] ++ hexDigits c.toNat ++ ['\x7d']
  else [c]

/-- A text between quotes. -/
def quote (s : String) : String :=
  String.ofList ('"' :: s.toList.flatMap escape ++ ['"'])

theorem escape_eq_self {c : Char} (quoted : c ≠ '"') (backslash : c ≠ '\\') (feed : c ≠ '\n')
    (tab : c ≠ '\t') (ret : c ≠ '\r') (null : c ≠ '\x00') (h : isUnprintable c = false) :
    escape c = [c] := by
  simp [escape, quoted, backslash, feed, tab, ret, null, h]

end Federation.Text
