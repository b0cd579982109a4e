/-! # Identifiers of actions and fan-outs

Actions and fan-outs carry a random identifier of 128 bits.  Its text has 32 hexadecimal digits; it
is written in lower case and in groups of 8, 4, 4, 4 and 12 digits with hyphens between them.  It
may be read without hyphens, and the form with hyphens may stand in braces or after `urn:uuid:` in
letters of either case.

* `ofChars?_toChars` — what is written is read back. -/

namespace Federation

/-- An identifier: its hexadecimal digits, most significant first. -/
structure Uuid where
  digits : List (Fin 16)
  length_digits : digits.length = 32
  deriving DecidableEq

namespace Uuid

/-- The value of a hexadecimal digit. -/
def digit? (c : Char) : Option (Fin 16) :=
  if '0' ≤ c ∧ c ≤ '9' then some (Fin.ofNat 16 (c.toNat - '0'.toNat))
  else if 'a' ≤ c ∧ c ≤ 'f' then some (Fin.ofNat 16 (c.toNat - 'a'.toNat + 10))
  else if 'A' ≤ c ∧ c ≤ 'F' then some (Fin.ofNat 16 (c.toNat - 'A'.toNat + 10))
  else none

/-- A digit in lower case. -/
def digitChar (d : Fin 16) : Char := Nat.digitChar d.val

theorem digit?_digitChar (d : Fin 16) : digit? (digitChar d) = some d := by
  revert d; decide

/-- The identifier of 32 digits. -/
def ofDigits? (cs : List Char) : Option Uuid :=
  match cs.mapM digit? with
  | some ds => if h : ds.length = 32 then some ⟨ds, h⟩ else none
  | none => none

/-- Where the hyphens stand in the text with hyphens. -/
def hyphens : List Nat := [8, 13, 18, 23]

/-- The text with hyphens, without them; nothing if one is missing or the length is wrong. -/
def unhyphened? (cs : List Char) : Option (List Char) :=
  if cs.length = 36 ∧ ∀ i ∈ hyphens, cs[i]? = some '-' then
    some ((cs.take 8) ++ (cs.drop 9).take 4 ++ (cs.drop 14).take 4 ++ (cs.drop 19).take 4 ++
      cs.drop 24)
  else none

/-- The identifier that a text denotes. -/
def ofChars? (cs : List Char) : Option Uuid :=
  if cs.length = 32 then ofDigits? cs
  else
    let bare :=
      if cs.length = 38 ∧ cs.head? = some '\x7b' ∧ cs.getLast? = some '\x7d' then
        cs.tail.dropLast
      else if cs.length = 45 ∧ (cs.take 9).map Char.toLower = "urn:uuid:".toList then cs.drop 9
      else cs
    (unhyphened? bare).bind ofDigits?

/-- The text of an identifier. -/
def toChars (u : Uuid) : List Char :=
  let cs := u.digits.map digitChar
  cs.take 8 ++ '-' :: (cs.drop 8).take 4 ++ '-' :: (cs.drop 12).take 4 ++
    '-' :: (cs.drop 16).take 4 ++ '-' :: cs.drop 20

/-- The identifier that a text denotes. -/
def ofString? (s : String) : Option Uuid := ofChars? s.toList

/-- The text of an identifier. -/
def text (u : Uuid) : String := String.ofList u.toChars

theorem mapM_digit?_digitChar (ds : List (Fin 16)) :
    (ds.map digitChar).mapM digit? = some ds := by
  induction ds with
  | nil => rfl
  | cons d ds ih => simp [List.mapM_cons, digit?_digitChar, ih]

theorem ofDigits?_digitChar (u : Uuid) : ofDigits? (u.digits.map digitChar) = some u := by
  rw [ofDigits?, mapM_digit?_digitChar]
  simp [u.length_digits]

theorem ofChars?_toChars (u : Uuid) : ofChars? u.toChars = some u := by
  have len : (u.digits.map digitChar).length = 32 := by simp [u.length_digits]
  rw [← ofDigits?_digitChar u, toChars]
  generalize u.digits.map digitChar = cs at len ⊢
  match cs, len with
  | [c0, c1, c2, c3, c4, c5, c6, c7, c8, c9, c10, c11, c12, c13, c14, c15, c16, c17, c18, c19,
      c20, c21, c22, c23, c24, c25, c26, c27, c28, c29, c30, c31], _ =>
    simp [ofChars?, unhyphened?, hyphens]

end Uuid

end Federation
