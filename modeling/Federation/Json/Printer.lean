import Federation.Json.Basic

/-! # Writing JSON

`Json.render` writes a value without blanks.  In a string only the quote, the backslash and the
control characters below the space are escaped.

* `escape_eq_self` — a plain character stands for itself. -/

namespace Federation.Json

/-- A hexadecimal digit. -/
def hexDigit (n : Nat) : Char := Nat.digitChar (n % 16)

/-- One character of a string. -/
def escape (c : Char) : List Char :=
  if c = '"' then ['\\', '"']
  else if c = '\\' then ['\\', '\\']
  else if c = '\n' then ['\\', 'n']
  else if c = '\r' then ['\\', 'r']
  else if c = '\t' then ['\\', 't']
  else if c = '\x08' then ['\\', 'b']
  else if c = '\x0c' then ['\\', 'f']
  else if c.toNat < 0x20 then ['\\', 'u', '0', '0', hexDigit (c.toNat / 16), hexDigit c.toNat]
  else [c]

theorem escape_eq_self {c : Char} (quoted : c ≠ '"') (backslash : c ≠ '\\')
    (plain : 0x20 ≤ c.toNat) : escape c = [c] := by
  have below : ∀ d : Char, d.toNat < 0x20 → c ≠ d := by
    rintro d hd rfl
    omega
  simp [escape, quoted, backslash, below '\n' (by decide), below '\r' (by decide),
    below '\t' (by decide), below '\x08' (by decide), below '\x0c' (by decide),
    Nat.not_lt.2 plain]

/-- A string between its quotes. -/
def renderString (s : String) : String :=
  String.ofList ('"' :: s.toList.flatMap escape ++ ['"'])

/-- A double by the fewest digits that are read as it: with a point from `10 ^ -5` up to `10 ^ 16`,
    otherwise with an exponent. -/
def renderDouble (x : Double) : String :=
  let (n, place) := x.shortest
  let digits := Nat.toDigits 10 n
  -- Where the point stands, counted from the first digit.
  let point := digits.length + place
  let zeros (count : Int) : List Char := List.replicate count.toNat '0'
  let body :=
    if 0 ≤ place ∧ point ≤ 16 then digits ++ zeros place ++ ['.', '0']
    else if 0 < point ∧ point ≤ 16 then
      digits.take point.toNat ++ '.' :: digits.drop point.toNat
    else if -5 < point ∧ point ≤ 0 then '0' :: '.' :: zeros (-point) ++ digits
    else
      digits.take 1 ++ (if digits.length = 1 then [] else '.' :: digits.drop 1) ++
        'e' :: (toString (point - 1)).toList
  String.ofList (if x.negative then '-' :: body else body)

mutual
/-- A value as text. -/
def render : Json → String
  | null => "null"
  | bool true => "true"
  | bool false => "false"
  | integer n => toString n
  | double x => renderDouble x
  | string s => renderString s
  | array xs => "[" ++ renderItems true xs ++ "]"
  | object ms => "\x7b" ++ renderMembers true ms ++ "\x7d"
  | senseless => "null"
/-- Items with the commas between them. -/
def renderItems : (first : Bool) → List Json → String
  | _, [] => ""
  | first, x :: xs => (if first then "" else ",") ++ x.render ++ renderItems false xs
/-- Members with the commas between them. -/
def renderMembers : (first : Bool) → List (String × Json) → String
  | _, [] => ""
  | first, (name, x) :: ms =>
    (if first then "" else ",") ++ renderString name ++ ":" ++ x.render ++ renderMembers false ms
end

end Federation.Json
