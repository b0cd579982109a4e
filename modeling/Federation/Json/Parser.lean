import Federation.Json.Basic
import Federation.Word

/-! # Reading JSON

`Json.parse?` reads a text that is exactly one JSON value: no comments, no trailing commas, no
control characters inside strings, nothing but blanks before and after.

The reader works on the list of the characters that are left.  Its recursion is bounded by a fuel
that is taken from the length of the text: opening a bracket costs a character, so twice the length
is enough.

* `length_skipBlanks_le`, `length_spanDigits` — reading never adds to the text.
* `decodeUnits_ofChars` — a string without escapes means itself. -/

namespace Federation.Json

/-- Whether a character is a blank between the parts of a text. -/
def isBlank (c : Char) : Bool := c = ' ' || c = '\n' || c = '\t' || c = '\r'

/-- The text without the blanks at its beginning. -/
def skipBlanks (cs : List Char) : List Char := cs.dropWhile isBlank

theorem length_skipBlanks_le (cs : List Char) : (skipBlanks cs).length ≤ cs.length :=
  (List.dropWhile_sublist isBlank).length_le

/-- The digits at the beginning of a text, and what follows them. -/
def spanDigits (cs : List Char) : List Char × List Char :=
  (cs.takeWhile Char.isDigit, cs.dropWhile Char.isDigit)

theorem length_spanDigits (cs : List Char) :
    (spanDigits cs).1.length + (spanDigits cs).2.length = cs.length := by
  rw [← List.length_append]
  exact congrArg List.length List.takeWhile_append_dropWhile

/-- The value of a decimal digit. -/
def digitValue (d : Char) : Nat := d.toNat - '0'.toNat

/-- The number that decimal digits denote. -/
def ofDigits (ds : List Char) : Nat := ds.foldl (fun n d => n * 10 + digitValue d) 0

/-! ## Numbers

The digits of a number are gathered in a word of 64 bits.  Digits for which the word has no room are
dropped: before the point each of them counts as a factor of ten, after the point it counts as
nothing. -/

/-- Digits are appended to a number while a word holds it: the number, and how many digits are
    left. -/
def appendDigits : Nat → List Char → Nat × Nat
  | n, [] => (n, 0)
  | n, d :: ds =>
    let m := n * 10 + digitValue d
    if Word.isUnsigned m then appendDigits m ds else (n, ds.length + 1)

theorem appendDigits_left_le (n : Nat) (ds : List Char) : (appendDigits n ds).2 ≤ ds.length := by
  induction ds generalizing n with
  | nil => simp [appendDigits]
  | cons d ds ih =>
    simp only [appendDigits]
    split
    · exact Nat.le_succ_of_le (ih _)
    · simp

/-- The number `± n · 10 ^ exponent`, unless it is too large for a double. -/
def ofScaled (negative : Bool) (n : Nat) (exponent : Int) : Json :=
  match (Double.ofRatio? n 1).bind (Double.scale? · exponent) with
  | some x => double (if negative then x.neg else x)
  | none => senseless

/-- A number without fraction and exponent, which a word without sign holds.  It is an integer if it
    fits a word with its sign; a negative zero is no integer. -/
def ofWord (negative : Bool) (n : Nat) : Json :=
  if negative then
    if n ≠ 0 ∧ Word.isSigned (-(n : Int)) then integer (-n) else ofScaled true n 0
  else integer n

/-- The digits after the point, if there is a point. -/
def readFraction : List Char → Option (List Char × List Char)
  | '.' :: cs =>
    match spanDigits cs with
    | ([], _) => none
    | (ds, rest) => some (ds, rest)
  | cs => some ([], cs)

/-- The exponent, if there is one. -/
def readExponent : List Char → Option (Option Int × List Char)
  | c :: cs =>
    if c = 'e' || c = 'E' then
      let (negative, cs) :=
        match cs with
        | '-' :: rest => (true, rest)
        | '+' :: rest => (false, rest)
        | rest => (false, rest)
      match spanDigits cs with
      | ([], _) => none
      | (ds, rest) => some (some (if negative then -(ofDigits ds : Int) else ofDigits ds), rest)
    else some (none, c :: cs)
  | [] => some (none, [])

/-- A number without its sign. -/
def readUnsigned (negative : Bool) (cs : List Char) : Option (Json × List Char) := do
  let (whole, rest) := spanDigits cs
  -- A number does not begin with a zero that another digit follows.
  if whole.isEmpty || (whole.head? == some '0' && whole.length > 1) then none
  else
    let (fraction, rest) ← readFraction rest
    let (exponent, rest) ← readExponent rest
    let (n, wholeLeft) := appendDigits 0 whole
    if wholeLeft = 0 && fraction.isEmpty && exponent.isNone then some (ofWord negative n, rest)
    else
      let (n, fractionLeft) := appendDigits n fraction
      some (ofScaled negative n
        (wholeLeft - (fraction.length - fractionLeft) + exponent.getD 0), rest)

/-- A number. -/
def readNumber : List Char → Option (Json × List Char)
  | '-' :: cs => readUnsigned true cs
  | cs => readUnsigned false cs

/-! ## Strings

A string is read as a list of code points, in which an escape may have left half of a surrogate
pair. -/

/-- The value of a hexadecimal digit. -/
def hexValue? (c : Char) : Option Nat :=
  if '0' ≤ c ∧ c ≤ '9' then some (c.toNat - '0'.toNat)
  else if 'a' ≤ c ∧ c ≤ 'f' then some (c.toNat - 'a'.toNat + 10)
  else if 'A' ≤ c ∧ c ≤ 'F' then some (c.toNat - 'A'.toNat + 10)
  else none

/-- The code point of four hexadecimal digits. -/
def hexCode? (a b c d : Char) : Option Nat := do
  some ((((← hexValue? a) * 16 + (← hexValue? b)) * 16 + (← hexValue? c)) * 16 + (← hexValue? d))

/-- The character that a letter after a backslash stands for. -/
def escaped? (c : Char) : Option Char :=
  if c = '"' ∨ c = '\\' ∨ c = '/' then some c
  else if c = 'b' then some '\x08'
  else if c = 'f' then some '\x0c'
  else if c = 'n' then some '\n'
  else if c = 'r' then some '\r'
  else if c = 't' then some '\t'
  else none

/-- The code points of a string whose opening quote was read, and what follows its closing one. -/
def readUnits : List Char → Option (List Nat × List Char)
  | [] => none
  | '"' :: cs => some ([], cs)
  -- Whether the halves of a pair stand together is left to `decodeUnits`.
  | '\\' :: 'u' :: a :: b :: c :: d :: cs => do
    let code ← hexCode? a b c d
    let (units, rest) ← readUnits cs
    some (code :: units, rest)
  | '\\' :: c :: cs => do
    let plain ← escaped? c
    let (units, rest) ← readUnits cs
    some (plain.toNat :: units, rest)
  | c :: cs =>
    if c.toNat < 0x20 ∨ c = '\\' then none
    else do
      let (units, rest) ← readUnits cs
      some (c.toNat :: units, rest)

/-- The characters of code points, in which the halves of a surrogate pair must stand together. -/
def decodeUnits : List Nat → Option (List Char)
  | [] => some []
  | n :: ns =>
    if 0xd800 ≤ n ∧ n < 0xdc00 then
      match ns with
      | m :: ns =>
        if 0xdc00 ≤ m ∧ m < 0xe000 then
          (decodeUnits ns).map
            (Char.ofNat (0x10000 + (n - 0xd800) * 0x400 + (m - 0xdc00)) :: ·)
        else none
      | [] => none
    else if 0xdc00 ≤ n ∧ n < 0xe000 then none
    else (decodeUnits ns).map (Char.ofNat n :: ·)

theorem decodeUnits_ofChars (cs : List Char) :
    decodeUnits (cs.map Char.toNat) = some cs := by
  induction cs with
  | nil => rfl
  | cons c cs ih =>
    have valid := c.valid
    have high : ¬(0xd800 ≤ c.toNat ∧ c.toNat < 0xdc00) := by
      rintro ⟨lo, hi⟩
      rcases valid with h | h <;> simp only [Char.toNat] at lo hi <;> omega
    have low : ¬(0xdc00 ≤ c.toNat ∧ c.toNat < 0xe000) := by
      rintro ⟨lo, hi⟩
      rcases valid with h | h <;> simp only [Char.toNat] at lo hi <;> omega
    rw [List.map_cons]
    unfold decodeUnits
    rw [if_neg high, if_neg low, ih]
    simp

/-- A string whose opening quote was read: its text, if it has one, and what follows. -/
def readString (cs : List Char) : Option (Option String × List Char) :=
  (readUnits cs).map fun (units, rest) => ((decodeUnits units).map String.ofList, rest)

/-! ## Values -/

mutual
/-- A value, and what follows it. -/
def readValue : (fuel : Nat) → List Char → Option (Json × List Char)
  | 0, _ => none
  | fuel + 1, cs =>
    match skipBlanks cs with
    | 'n' :: 'u' :: 'l' :: 'l' :: rest => some (null, rest)
    | 't' :: 'r' :: 'u' :: 'e' :: rest => some (bool true, rest)
    | 'f' :: 'a' :: 'l' :: 's' :: 'e' :: rest => some (bool false, rest)
    | '"' :: rest =>
      (readString rest).map fun (s, rest) => ((s.map string).getD senseless, rest)
    | '[' :: rest =>
      match skipBlanks rest with
      | ']' :: rest => some (array [], rest)
      | _ => (readItems fuel rest).map fun (xs, rest) => (array xs, rest)
    | '\x7b' :: rest =>
      match skipBlanks rest with
      | '\x7d' :: rest => some (object [], rest)
      | _ =>
        (readMembers fuel rest).map fun (ms, rest) => ((ms.map object).getD senseless, rest)
    | rest => readNumber rest
/-- The items of an array up to its closing bracket, and what follows it. -/
def readItems : (fuel : Nat) → List Char → Option (List Json × List Char)
  | 0, _ => none
  | fuel + 1, cs => do
    let (x, rest) ← readValue fuel cs
    match skipBlanks rest with
    | ',' :: rest =>
      let (xs, rest) ← readItems fuel rest
      some (x :: xs, rest)
    | ']' :: rest => some ([x], rest)
    | _ => none
/-- The members of an object up to its closing brace, and what follows it.  There are none to be
    used if one of the names has no meaning. -/
def readMembers : (fuel : Nat) → List Char → Option (Option (List (String × Json)) × List Char)
  | 0, _ => none
  | fuel + 1, cs => do
    match skipBlanks cs with
    | '"' :: rest =>
      let (name, rest) ← readString rest
      match skipBlanks rest with
      | ':' :: rest =>
        let (x, rest) ← readValue fuel rest
        let member := name.map fun name => (name, x)
        match skipBlanks rest with
        | ',' :: rest =>
          let (ms, rest) ← readMembers fuel rest
          some (member.bind fun m => ms.map (m :: ·), rest)
        | '\x7d' :: rest => some (member.map fun m => [m], rest)
        | _ => none
      | _ => none
    | _ => none
end

/-- The value that a text denotes, if it is well formed. -/
def parse? (s : String) : Option Json :=
  let cs := s.toList
  match readValue (2 * cs.length + 2) cs with
  | some (j, rest) => if (skipBlanks rest).isEmpty then some j else none
  | none => none

end Federation.Json
