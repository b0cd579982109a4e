/-! # Blank text

A text is blank if it holds nothing but white space, which includes the blanks of scripts other
than Latin.

* `isBlankChar_of_isWhitespace` — every ASCII white space is white space here.
* `isBlank_iff` — a text is blank exactly if all its characters are. -/

namespace Federation.Text

/-- The code points of white space, as inclusive ranges in ascending order. -/
def blankRanges : List (Nat × Nat) :=
  [ (0x9, 0xd), (0x20, 0x20), (0x85, 0x85), (0xa0, 0xa0), (0x1680, 0x1680), (0x2000, 0x200a),
    (0x2028, 0x2029), (0x202f, 0x202f), (0x205f, 0x205f), (0x3000, 0x3000) ]

/-- Whether a character is white space. -/
def isBlankChar (c : Char) : Bool :=
  blankRanges.any fun r => r.1 ≤ c.toNat && c.toNat ≤ r.2

/-- Whether a text is nothing but white space. -/
def isBlank (s : String) : Bool :=
  s.toList.all isBlankChar

theorem isBlank_iff (s : String) : isBlank s = true ↔ ∀ c ∈ s.toList, isBlankChar c = true := by
  simp [isBlank]

theorem isBlankChar_of_isWhitespace {c : Char} (h : c.isWhitespace = true) :
    isBlankChar c = true := by
  simp only [Char.isWhitespace, Bool.or_eq_true, decide_eq_true_eq] at h
  rcases h with ((rfl | rfl) | rfl) | rfl <;> decide

end Federation.Text
