import Federation.Json.Parser
import Federation.Json.Printer
import Mathlib.Data.List.Basic

/-!
# Numbers and strings that are read back

An integer of 64 bits is written by its decimal digits, so it is read back if no part of a number
follows it.  A string is written character by character, each of them as itself or as an escape that
the reader undoes.

## Key results

- `readNumber_toString`: an integer that fits a word is read back
- `readUnits_escape`: the reader undoes one escape
- `readString_render`: a string is read back, whatever its characters are
-/

namespace Federation.Json

variable {rest : List Char}

/-! ## Digits -/

/-- No part of a number follows. -/
def EndsNumber (rest : List Char) : Prop :=
  ∀ c ∈ rest.head?, c.isDigit = false ∧ c ≠ '.' ∧ c ≠ 'e' ∧ c ≠ 'E'

/-- All digits of a number are taken, and nothing of what follows it. -/
theorem spanDigits_append {ds : List Char} (digits : ∀ c ∈ ds, c.isDigit = true)
    (hrest : EndsNumber rest) : spanDigits (ds ++ rest) = (ds, rest) := by
  unfold spanDigits
  rw [List.takeWhile_append_of_pos digits, List.dropWhile_append_of_pos digits]
  cases rest with
  | nil => simp
  | cons c rest =>
    have hc := (hrest c rfl).1
    simp [hc]

/-- A number of several digits does not begin with a zero. -/
theorem head?_toDigits (n : Nat) (h : 1 < (Nat.toDigits 10 n).length) :
    (Nat.toDigits 10 n).head? ≠ some '0' := by
  -- Strong induction: the first digit is that of the number without its last one.
  induction n using Nat.strongRecOn with
  | ind n ih =>
    by_cases hn : n < 10
    · rw [Nat.toDigits_of_lt_base hn] at h
      exact absurd h (Nat.lt_irrefl 1)
    · rw [Nat.toDigits_of_base_le (by decide) (Nat.le_of_not_lt hn)]
      rw [List.head?_append_of_ne_nil _ Nat.toDigits_ne_nil]
      by_cases hlead : n / 10 < 10
      · rw [Nat.toDigits_of_lt_base hlead]
        have hpos : 0 < n / 10 := by omega
        generalize n / 10 = d at hlead hpos
        revert d
        decide
      · refine ih (n / 10) (by omega) ?_
        rw [Nat.toDigits_of_base_le (by decide) (Nat.le_of_not_lt hlead), List.length_append]
        have hsome : 0 < (Nat.toDigits 10 (n / 10 / 10)).length := Nat.length_toDigits_pos
        simp only [List.length_singleton]
        omega

/-- A number does not become smaller when digits are appended. -/
theorem le_ofDigitChars (ds : List Char) (n : Nat) : n ≤ Nat.ofDigitChars 10 ds n := by
  rw [Nat.ofDigitChars_eq_ofDigitChars_zero]
  exact Nat.le_add_right_of_le (Nat.le_mul_of_pos_left n (Nat.pow_pos (by decide)))

/-- Digits are appended as long as a word holds the number. -/
theorem appendDigits_eq {ds : List Char} {n : Nat} (h : Nat.ofDigitChars 10 ds n < Word.count) :
    appendDigits n ds = (Nat.ofDigitChars 10 ds n, 0) := by
  induction ds generalizing n with
  | nil => rfl
  | cons d ds ih =>
    have hstep :
        Nat.ofDigitChars 10 (d :: ds) n = Nat.ofDigitChars 10 ds (n * 10 + digitValue d) := by
      rw [Nat.ofDigitChars_cons, Nat.mul_comm]
      rfl
    rw [hstep] at h ⊢
    -- The number so far is at most the whole one, which a word holds.
    have hfits : Word.isUnsigned (n * 10 + digitValue d : Nat) = true := by
      rw [Word.isUnsigned_iff]
      have hle := le_ofDigitChars ds (n * 10 + digitValue d)
      omega
    rw [appendDigits, if_pos hfits]
    exact ih h

/-! ## Numbers -/

/-- Where a number ends, there is no fraction. -/
theorem readFraction_eq (h : EndsNumber rest) : readFraction rest = some ([], rest) := by
  unfold readFraction
  split
  · exact absurd rfl (h '.' rfl).2.1
  · rfl

/-- Where a number ends, there is no exponent. -/
theorem readExponent_eq (h : EndsNumber rest) : readExponent rest = some (none, rest) := by
  cases rest with
  | nil => rfl
  | cons c rest =>
    obtain ⟨-, -, he, hE⟩ := h c rfl
    simp [readExponent, he, hE]

/-- The digits of a number that fits a word are read back, with any sign before them. -/
theorem readUnsigned_toDigits (negative : Bool) {n : Nat} (hn : n < Word.count)
    (hrest : EndsNumber rest) :
    readUnsigned negative (Nat.toDigits 10 n ++ rest) = some (ofWord negative n, rest) := by
  have hspan : spanDigits (Nat.toDigits 10 n ++ rest) = (Nat.toDigits 10 n, rest) :=
    spanDigits_append (fun c hc => Nat.isDigit_of_mem_toDigits (by decide) (by decide) hc) hrest
  have hvalue : appendDigits 0 (Nat.toDigits 10 n) = (n, 0) := by
    rw [appendDigits_eq (by rw [Nat.ofDigitChars_ten_toDigits]; exact hn),
      Nat.ofDigitChars_ten_toDigits]
  -- The first digit is not a zero that more digits follow.
  have hlead : ((Nat.toDigits 10 n).isEmpty ||
      ((Nat.toDigits 10 n).head? == some '0' && decide ((Nat.toDigits 10 n).length > 1))) =
        false := by
    rw [Bool.or_eq_false_iff]
    refine ⟨by simp, Bool.eq_false_iff.mpr fun h => ?_⟩
    rw [Bool.and_eq_true, beq_iff_eq, decide_eq_true_iff] at h
    exact head?_toDigits n h.2 h.1
  unfold readUnsigned
  simp only [hspan, hlead, hvalue, readFraction_eq hrest, Option.bind_eq_bind, Option.bind_some,
    readExponent_eq hrest]
  rfl

/-- Whether an integer is kept as such. -/
def fitsWord (n : Int) : Bool := Word.isSigned n || Word.isUnsigned n

/-- An integer that fits a word is read back. -/
theorem readNumber_toString {n : Int} (hn : fitsWord n = true) (hrest : EndsNumber rest) :
    readNumber ((toString n).toList ++ rest) = some (integer n, rest) := by
  unfold fitsWord at hn
  rw [Bool.or_eq_true, Word.isSigned_iff, Word.isUnsigned_iff] at hn
  have htext : toString n = n.repr := rfl
  rw [htext, Int.repr_eq_if]
  by_cases hpos : 0 ≤ n
  · rw [if_pos hpos, Nat.repr_eq_ofList_toDigits, String.toList_ofList]
    have hcount : n.toNat < Word.count := by
      simp only [Word.count, Word.negativeCount] at hn ⊢
      omega
    have hread := readUnsigned_toDigits false hcount hrest
    have hinteger : ofWord false n.toNat = integer n :=
      congrArg integer (Int.toNat_of_nonneg hpos)
    rw [hinteger] at hread
    unfold readNumber
    split
    · next cs hcs =>
      -- A digit is no sign.
      have hmem : '-' ∈ Nat.toDigits 10 n.toNat := by
        have hhead := congrArg List.head? hcs
        rw [List.head?_append_of_ne_nil _ Nat.toDigits_ne_nil] at hhead
        exact List.mem_of_mem_head? hhead
      have hdigit := Nat.isDigit_of_mem_toDigits (by decide) (by decide) hmem
      exact absurd hdigit (by decide)
    · exact hread
  · rw [if_neg hpos, String.toList_append, Nat.repr_eq_ofList_toDigits, String.toList_ofList]
    have hcount : (-n).toNat < Word.count := by
      simp only [Word.count, Word.negativeCount] at hn ⊢
      omega
    have hread := readUnsigned_toDigits true hcount hrest
    have hcast : ((-n).toNat : Int) = -n := Int.toNat_of_nonneg (by omega)
    -- A negative integer that fits is at least the smallest signed word.
    have hinteger : ofWord true (-n).toNat = integer n := by
      have hsigned : Word.isSigned n = true := by
        rw [Word.isSigned_iff]
        omega
      unfold ofWord
      rw [if_pos rfl, hcast, Int.neg_neg, if_pos ⟨by omega, hsigned⟩]
    rw [hinteger] at hread
    rw [String.toList_ofList]
    exact hread

/-! ## Strings -/

/-- A control character is told by its last two digits. -/
theorem hexCode?_hexDigit : ∀ n < 0x20,
    hexCode? '0' '0' (hexDigit (n / 16)) (hexDigit n) = some n := by
  decide

/-- The reader undoes one escape. -/
theorem readUnits_escape (c : Char) (cs : List Char) :
    readUnits (escape c ++ cs) = (readUnits cs).map fun p => (c.toNat :: p.1, p.2) := by
  have hread : ∀ (o : Option (List Nat × List Char)) (n : Nat),
      (o.bind fun p => some (n :: p.1, p.2)) = o.map fun p => (n :: p.1, p.2) := by
    rintro (_ | p) n <;> rfl
  -- One case for each character that is escaped in a way of its own, one for the other control
  -- characters, and one for all that stand for themselves.
  unfold escape
  split
  · next h => subst h; exact hread _ _
  split
  · next h => subst h; exact hread _ _
  split
  · next h => subst h; exact hread _ _
  split
  · next h => subst h; exact hread _ _
  split
  · next h => subst h; exact hread _ _
  split
  · next h => subst h; exact hread _ _
  split
  · next h => subst h; exact hread _ _
  split
  · next h =>
    simp only [List.cons_append, List.nil_append, readUnits, hexCode?_hexDigit c.toNat h]
    exact hread _ _
  · next hquote hbackslash _ _ _ _ _ hplain =>
    have hnot : ¬(c.toNat < 0x20 ∨ c = '\\') := not_or.mpr ⟨hplain, hbackslash⟩
    rw [List.singleton_append, readUnits.eq_def]
    split
    · next heq => exact absurd heq (List.cons_ne_nil c cs)
    · next heq => exact absurd (List.cons.inj heq).1 hquote
    · next heq => exact absurd (List.cons.inj heq).1 hbackslash
    · next heq => exact absurd (List.cons.inj heq).1 hbackslash
    · next heq =>
      obtain ⟨rfl, rfl⟩ := List.cons.inj heq
      rw [if_neg hnot]
      exact hread _ _

/-- A string is read back, whatever its characters are. -/
theorem readString_render (s : String) (rest : List Char) :
    readString (s.toList.flatMap escape ++ '"' :: rest) = some (some s, rest) := by
  have hunits : ∀ cs : List Char,
      readUnits (cs.flatMap escape ++ '"' :: rest) = some (cs.map Char.toNat, rest) := by
    intro cs
    induction cs with
    | nil => rfl
    | cons c cs ih =>
      rw [List.flatMap_cons, List.append_assoc, readUnits_escape, ih]
      rfl
  unfold readString
  rw [hunits, Option.map_some]
  dsimp only
  rw [decodeUnits_ofChars, Option.map_some, String.ofList_toList]

end Federation.Json
