import Federation.Proofs.Json.Scalars

/-!
# Documents that are read back

A document without doubles is written in such a way that reading it yields the same document, in
which the members of each object are in the same order and repeated names are kept.  The fuel of the
reader is never used up, as every two units of it stand for a character that is read.

## Key results

- `IsExact`: the documents that are written without loss
- `readItems_render`, `readMembers_render`: what is read of the items of an array, and of the
  members of an object
- `readValue_render`: a document is read back, whatever follows it
- `parse?_render`: a text that is a written document denotes this document
-/

namespace Federation.Json

variable {j : Json} {rest : List Char} {xs : List Json} {ms : List (String × Json)}

/-- A document without doubles and without parts that have no meaning, and whose integers fit
    words. -/
inductive IsExact : Json → Prop
  | null : IsExact null
  | bool (b : Bool) : IsExact (bool b)
  | integer (n : Int) (fits : fitsWord n = true) : IsExact (integer n)
  | string (s : String) : IsExact (string s)
  | array (xs : List Json) (items : ∀ x ∈ xs, IsExact x) : IsExact (array xs)
  | object (ms : List (String × Json)) (members : ∀ m ∈ ms, IsExact m.2) : IsExact (object ms)

/-- The characters of a document. -/
def text (j : Json) : List Char := j.render.toList

/-! ## Texts -/

/-- A text is written between quotes, character by character. -/
theorem text_string (s : String) : (string s).text = '"' :: (s.toList.flatMap escape ++ ['"']) := by
  show (renderString s).toList = _
  rw [renderString, String.toList_ofList, List.cons_append]

/-- The characters of the items of an array. -/
def textOfItems : List Json → List Char
  | [] => []
  | [x] => x.text
  | x :: xs => x.text ++ ',' :: textOfItems xs

/-- The characters of a member of an object. -/
def textOfMember (m : String × Json) : List Char := (string m.1).text ++ ':' :: m.2.text

/-- The characters of the members of an object. -/
def textOfMembers : List (String × Json) → List Char
  | [] => []
  | [m] => textOfMember m
  | m :: ms => textOfMember m ++ ',' :: textOfMembers ms

/-- The printer writes the items of an array as `textOfItems` says. -/
theorem toList_renderItems (xs : List Json) : (renderItems true xs).toList = textOfItems xs := by
  induction xs with
  | nil => rfl
  | cons x xs ih =>
    cases xs with
    | nil => simp [renderItems, textOfItems, text]
    | cons y ys =>
      rw [textOfItems, ← ih]
      · simp [renderItems, text]
      · exact List.cons_ne_nil y ys

/-- The printer writes the members of an object as `textOfMembers` says. -/
theorem toList_renderMembers (ms : List (String × Json)) :
    (renderMembers true ms).toList = textOfMembers ms := by
  induction ms with
  | nil => rfl
  | cons m ms ih =>
    obtain ⟨name, x⟩ := m
    cases ms with
    | nil => simp [renderMembers, textOfMembers, textOfMember, text, render]
    | cons m ms =>
      rw [textOfMembers, ← ih]
      · simp [renderMembers, textOfMember, text, render]
      · exact List.cons_ne_nil m ms

/-- An array is written between brackets. -/
theorem text_array (xs : List Json) : (array xs).text = '[' :: (textOfItems xs ++ [']']) := by
  rw [← toList_renderItems]
  simp [text, render]

/-- An object is written between braces. -/
theorem text_object (ms : List (String × Json)) :
    (object ms).text = '\x7b' :: (textOfMembers ms ++ ['\x7d']) := by
  rw [← toList_renderMembers]
  simp [text, render]

/-! ## Beginnings -/

/-- Where a text does not begin with a blank, there is nothing to skip. -/
theorem skipBlanks_cons {c : Char} (h : isBlank c = false) (cs : List Char) :
    skipBlanks (c :: cs) = c :: cs := by
  simp [skipBlanks, h]

/-- A digit or a sign. -/
def startsNumber (c : Char) : Bool := c = '-' || c.isDigit

/-- An integer is written as something, and its first character is one that tells the reader that a
    number follows. -/
theorem text_integer (n : Int) : ∃ c cs, (integer n).text = c :: cs ∧ startsNumber c = true := by
  show ∃ c cs, n.repr.toList = c :: cs ∧ startsNumber c = true
  rw [Int.repr_eq_if]
  split
  · rw [Nat.repr_eq_ofList_toDigits, String.toList_ofList]
    obtain ⟨c, cs, hcs⟩ := List.exists_cons_of_ne_nil (Nat.toDigits_ne_nil (b := 10) (n := n.toNat))
    have hc : c.isDigit = true :=
      Nat.isDigit_of_mem_toDigits (by decide) (by decide) (hcs ▸ List.mem_cons_self)
    exact ⟨c, cs, hcs, by simp [startsNumber, hc]⟩
  · exact ⟨'-', _, by rw [String.toList_append]; rfl, rfl⟩

/-- A number does not begin with a character of another kind. -/
theorem ne_of_startsNumber {c : Char} (h : startsNumber c = true) (d : Char)
    (hd : startsNumber d = false) : c ≠ d := by
  rintro rfl
  exact Bool.false_ne_true (hd.symm.trans h)

/-- A number does not begin with a blank. -/
theorem isBlank_of_startsNumber {c : Char} (h : startsNumber c = true) : isBlank c = false := by
  have hne := ne_of_startsNumber h
  simp [isBlank, hne ' ' rfl, hne '\n' rfl, hne '\t' rfl, hne '\r' rfl]

/-- A document begins with a character that is neither a blank nor a closing bracket. -/
theorem exists_text_eq_cons (h : j.IsExact) :
    ∃ c cs, j.text = c :: cs ∧ isBlank c = false ∧ c ≠ ']' := by
  cases h with
  | null => exact ⟨'n', _, rfl, rfl, by decide⟩
  | bool b => cases b <;> exact ⟨_, _, rfl, rfl, by decide⟩
  | integer n =>
    obtain ⟨c, cs, hcs, hc⟩ := text_integer n
    exact ⟨c, cs, hcs, isBlank_of_startsNumber hc, ne_of_startsNumber hc ']' rfl⟩
  | string s => exact ⟨'"', _, text_string s, rfl, by decide⟩
  | array xs => exact ⟨'[', _, text_array xs, rfl, by decide⟩
  | object ms => exact ⟨'\x7b', _, text_object ms, rfl, by decide⟩

/-! ## What is read by the first character -/

/-- After a quote, the reader reads a text. -/
theorem readValue_quote (fuel : Nat) (cs : List Char) : readValue (fuel + 1) ('"' :: cs) =
    (readString cs).map fun (s, rest) => ((s.map string).getD senseless, rest) := rfl

/-- After a bracket that is not closed at once, the reader reads items. -/
theorem readValue_bracket {fuel : Nat} {c : Char} {cs : List Char} (hblank : isBlank c = false)
    (hclose : c ≠ ']') : readValue (fuel + 1) ('[' :: c :: cs) =
      (readItems fuel (c :: cs)).map fun (xs, rest) => (array xs, rest) := by
  have hopen : skipBlanks ('[' :: c :: cs) = '[' :: c :: cs := rfl
  simp only [readValue, hopen, skipBlanks_cons hblank]
  split
  · next h => exact absurd (List.cons.inj h).1 hclose
  · rfl

/-- After a brace and a quote, the reader reads members. -/
theorem readValue_brace (fuel : Nat) (cs : List Char) : readValue (fuel + 1) ('\x7b' :: '"' :: cs) =
    (readMembers fuel ('"' :: cs)).map fun (ms, rest) => ((ms.map object).getD senseless, rest) :=
  rfl

/-- A number is read where no other document begins. -/
theorem readValue_of_startsNumber {c : Char} (hc : startsNumber c = true) (fuel : Nat)
    (cs : List Char) : readValue (fuel + 1) (c :: cs) = readNumber (c :: cs) := by
  have hne := ne_of_startsNumber hc
  rw [readValue, skipBlanks_cons (isBlank_of_startsNumber hc)]
  split
  · next h => exact absurd (List.cons.inj h).1 (hne 'n' rfl)
  · next h => exact absurd (List.cons.inj h).1 (hne 't' rfl)
  · next h => exact absurd (List.cons.inj h).1 (hne 'f' rfl)
  · next h => exact absurd (List.cons.inj h).1 (hne '"' rfl)
  · next h => exact absurd (List.cons.inj h).1 (hne '[' rfl)
  · next h => exact absurd (List.cons.inj h).1 (hne '\x7b' rfl)
  · rfl

/-! ## Values -/

/-- What may stand behind a document inside another one. -/
def Separates (rest : List Char) : Prop :=
  ∀ c ∈ rest.head?, c = ',' ∨ c = ']' ∨ c = '\x7d'

/-- What may follow a value may follow a number. -/
theorem Separates.endsNumber (h : Separates rest) : EndsNumber rest := by
  intro c hc
  rcases h c hc with rfl | rfl | rfl <;> decide

/-- A document is read back, if there is enough fuel for its length. -/
def ReadsBack (j : Json) : Prop :=
  ∀ fuel rest, Separates rest → 2 * j.text.length ≤ fuel →
    readValue fuel (j.text ++ rest) = some (j, rest)

/-- Since a value is not written as nothing, the fuel that is enough for it is not zero. -/
theorem readsBack_of_succ (hne : j.text ≠ [])
    (h : ∀ fuel rest, Separates rest → 2 * j.text.length ≤ fuel + 1 →
      readValue (fuel + 1) (j.text ++ rest) = some (j, rest)) : ReadsBack j := by
  intro fuel rest hrest hfuel
  have hpos := List.length_pos_iff.mpr hne
  obtain ⟨fuel, rfl⟩ : ∃ n, fuel = n + 1 := ⟨fuel - 1, by omega⟩
  exact h fuel rest hrest hfuel

/-- Items that are read back one by one are read back as the items of an array. -/
theorem readItems_render (hne : xs ≠ []) (items : ∀ x ∈ xs, ReadsBack x) {fuel : Nat}
    (hfuel : 2 * (textOfItems xs).length + 1 ≤ fuel) :
    readItems fuel (textOfItems xs ++ ']' :: rest) = some (xs, rest) := by
  induction xs generalizing fuel with
  | nil => exact absurd rfl hne
  | cons x xs ih =>
    obtain ⟨fuel, rfl⟩ : ∃ n, fuel = n + 1 := ⟨fuel - 1, by omega⟩
    have hx := items x List.mem_cons_self
    -- The last item is followed by the bracket, and any other one by a comma and the items that are
    -- left.
    cases xs with
    | nil =>
      have hread := hx fuel (']' :: rest) (by simp [Separates]) (by simpa [textOfItems] using hfuel)
      rw [textOfItems, readItems, hread]
      rfl
    | cons y ys =>
      have hlength : (textOfItems (x :: y :: ys)).length =
          x.text.length + 1 + (textOfItems (y :: ys)).length := by
        simp [textOfItems]
        omega
      have hread := hx fuel (',' :: (textOfItems (y :: ys) ++ ']' :: rest)) (by simp [Separates])
        (by omega)
      have hrest : readItems fuel (textOfItems (y :: ys) ++ ']' :: rest) = some (y :: ys, rest) :=
        ih (List.cons_ne_nil y ys) (fun z hz => items z (List.mem_cons_of_mem x hz)) (by omega)
      rw [textOfItems, List.append_assoc, readItems, List.cons_append, hread]
      · show (readItems fuel _).bind _ = _
        rw [hrest]
        rfl
      · exact List.cons_ne_nil y ys

/-- A member is read by its name, a colon and its value, and then the next ones, unless it is the
    last. -/
theorem readMembers_member {m : String × Json} {fuel : Nat} {after : List Char} {c : Char}
    (hafter : isBlank c = false)
    (hx : readValue fuel (m.2.text ++ c :: after) = some (m.2, c :: after)) :
    readMembers (fuel + 1) (textOfMember m ++ c :: after) =
      if c = ',' then (readMembers fuel after).map fun p => (p.1.map (m :: ·), p.2)
      else if c = '\x7d' then some (some [m], after)
      else none := by
  have htext : textOfMember m ++ c :: after =
      '"' :: (m.1.toList.flatMap escape ++ '"' :: ':' :: (m.2.text ++ c :: after)) := by
    simp [textOfMember, text_string]
  have hquote : ∀ cs, skipBlanks ('"' :: cs) = '"' :: cs := fun _ => rfl
  have hcolon : ∀ cs, skipBlanks (':' :: cs) = ':' :: cs := fun _ => rfl
  rw [htext]
  -- Name, colon and value are read off; what is done next depends on the character after them.
  simp only [readMembers, hquote, hcolon, readString_render, hx, skipBlanks_cons hafter,
    Option.bind_eq_bind, Option.bind_some, Option.map_some]
  split
  · next heq =>
    obtain ⟨rfl, rfl⟩ := List.cons.inj heq
    rw [if_pos rfl]
    cases readMembers fuel after <;> rfl
  · next heq =>
    obtain ⟨rfl, rfl⟩ := List.cons.inj heq
    rw [if_neg (by decide), if_pos rfl]
  · next hcomma hclose =>
    have hother : c ≠ ',' ∧ c ≠ '\x7d' :=
      ⟨fun h => hcomma after (h ▸ rfl), fun h => hclose after (h ▸ rfl)⟩
    rw [if_neg hother.1, if_neg hother.2]

/-- Members whose values are read back are read back as the members of an object. -/
theorem readMembers_render (hne : ms ≠ []) (members : ∀ m ∈ ms, ReadsBack m.2) {fuel : Nat}
    (hfuel : 2 * (textOfMembers ms).length ≤ fuel) :
    readMembers fuel (textOfMembers ms ++ '\x7d' :: rest) = some (some ms, rest) := by
  induction ms generalizing fuel with
  | nil => exact absurd rfl hne
  | cons m ms ih =>
    have hm := members m List.mem_cons_self
    have hlength : m.2.text.length < (textOfMember m).length := by
      simp [textOfMember]
      omega
    -- The last member is followed by the brace, and any other one by a comma and the members that
    -- are left.
    cases ms with
    | nil =>
      rw [textOfMembers] at hfuel ⊢
      obtain ⟨fuel, rfl⟩ : ∃ n, fuel = n + 1 := ⟨fuel - 1, by omega⟩
      have hread := hm fuel ('\x7d' :: rest) (by simp [Separates]) (by omega)
      exact readMembers_member (by decide) hread
    | cons n ns =>
      have htext : textOfMembers (m :: n :: ns) =
          textOfMember m ++ ',' :: textOfMembers (n :: ns) := rfl
      rw [htext, List.length_append, List.length_cons] at hfuel
      obtain ⟨fuel, rfl⟩ : ∃ n, fuel = n + 1 := ⟨fuel - 1, by omega⟩
      have hread := hm fuel (',' :: (textOfMembers (n :: ns) ++ '\x7d' :: rest))
        (by simp [Separates]) (by omega)
      have hrest : readMembers fuel (textOfMembers (n :: ns) ++ '\x7d' :: rest) =
          some (some (n :: ns), rest) :=
        ih (List.cons_ne_nil n ns) (fun k hk => members k (List.mem_cons_of_mem m hk)) (by omega)
      rw [htext, List.append_assoc, List.cons_append, readMembers_member (by decide) hread]
      show (readMembers fuel _).map _ = _
      rw [hrest]
      rfl

/-- An array whose items are read back is read back. -/
theorem readValue_array (hne : xs ≠ []) (items : ∀ x ∈ xs, IsExact x)
    (back : ∀ x ∈ xs, ReadsBack x) : ReadsBack (array xs) := by
  refine readsBack_of_succ (by simp [text_array]) fun fuel rest hrest hfuel => ?_
  rw [text_array] at hfuel ⊢
  simp only [List.length_cons, List.length_append, List.length_nil] at hfuel
  have hread : readItems fuel (textOfItems xs ++ ']' :: rest) = some (xs, rest) :=
    readItems_render hne back (by omega)
  obtain ⟨x, ys, rfl⟩ := List.exists_cons_of_ne_nil hne
  -- The first item begins with a character that does not close the array.
  obtain ⟨c, cs, hx, hblank, hclose⟩ := exists_text_eq_cons (items x List.mem_cons_self)
  obtain ⟨ds, hds⟩ : ∃ ds, textOfItems (x :: ys) = c :: ds := by
    cases ys with
    | nil => exact ⟨cs, hx⟩
    | cons y ys => exact ⟨cs ++ ',' :: textOfItems (y :: ys), by rw [textOfItems, hx]; rfl; simp⟩
  rw [hds, List.cons_append] at hread
  rw [hds, List.cons_append, List.cons_append, List.cons_append, List.append_assoc,
    readValue_bracket hblank hclose, List.singleton_append, hread]
  rfl

/-- An object the values of whose members are read back is read back. -/
theorem readValue_object (hne : ms ≠ []) (back : ∀ m ∈ ms, ReadsBack m.2) :
    ReadsBack (object ms) := by
  refine readsBack_of_succ (by simp [text_object]) fun fuel rest hrest hfuel => ?_
  rw [text_object] at hfuel ⊢
  simp only [List.length_cons, List.length_append, List.length_nil] at hfuel
  have hread : readMembers fuel (textOfMembers ms ++ '\x7d' :: rest) = some (some ms, rest) :=
    readMembers_render hne back (by omega)
  -- The first member begins with the quote before its name.
  obtain ⟨ds, hds⟩ : ∃ ds, textOfMembers ms = '"' :: ds := by
    obtain ⟨m, ns, rfl⟩ := List.exists_cons_of_ne_nil hne
    cases ns with
    | nil => exact ⟨_, by rw [textOfMembers, textOfMember, text_string]; rfl⟩
    | cons n ns => exact ⟨_, by rw [textOfMembers, textOfMember, text_string]; rfl; simp⟩
  rw [hds, List.cons_append] at hread
  rw [hds, List.cons_append, List.cons_append, List.cons_append, List.append_assoc,
    readValue_brace, List.singleton_append, hread]
  rfl

/-- A document is read back, whatever follows it. -/
theorem readValue_render (h : j.IsExact) : ReadsBack j := by
  -- Induction on the document: what is inside an array or an object is read back.
  induction h with
  | null => exact readsBack_of_succ (by simp [text, render]) fun _ _ _ _ => rfl
  | bool b =>
    cases b <;> exact readsBack_of_succ (by simp [text, render]) fun _ _ _ _ => rfl
  | integer n fits =>
    obtain ⟨c, cs, hcs, hc⟩ := text_integer n
    refine readsBack_of_succ (by simp [hcs]) fun fuel rest hrest hfuel => ?_
    have hread := readNumber_toString fits hrest.endsNumber
    have htext : (toString n).toList = c :: cs := hcs
    rw [htext, List.cons_append] at hread
    rw [hcs, List.cons_append, readValue_of_startsNumber hc, hread]
  | string s =>
    refine readsBack_of_succ (by simp [text_string]) fun fuel rest hrest hfuel => ?_
    rw [text_string, List.cons_append, List.append_assoc, List.singleton_append, readValue_quote,
      readString_render]
    rfl
  | array xs items ih =>
    cases xs with
    | nil => exact readsBack_of_succ (by simp [text_array]) fun _ _ _ _ => rfl
    | cons x xs => exact readValue_array (List.cons_ne_nil x xs) items ih
  | object ms members ih =>
    cases ms with
    | nil => exact readsBack_of_succ (by simp [text_object]) fun _ _ _ _ => rfl
    | cons m ms => exact readValue_object (List.cons_ne_nil m ms) ih

/-- A text that is a written document denotes this document. -/
theorem parse?_render (h : j.IsExact) : parse? j.render = some j := by
  have hread := readValue_render h (2 * j.text.length + 2) [] (by simp [Separates]) (by omega)
  rw [List.append_nil] at hread
  unfold parse? text at *
  simp only [hread]
  rfl

end Federation.Json
