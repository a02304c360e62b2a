/-
# Blank characters

Which characters count as blank between a key and its colon, and at the end of a line.  The class is
the White_Space property of Unicode together with the four separators U+001C to U+001F; the
zero-width space, the word joiner and the byte-order mark are not blank.

JSON's own blanks, which separate tokens in a document that is read strictly, are four of them.
-/

namespace SchemaAssist.Text

/-! ## 1. Ranges of code points -/

/-- Whether `c` lies in one of the inclusive ranges of a table. -/
def inRanges (table : List (Nat × Nat)) (c : Char) : Bool :=
  table.any fun r => r.1 ≤ c.toNat && c.toNat ≤ r.2

/-- Whether the ranges of a table stand in rising order with a gap between any two. -/
def isTable : List (Nat × Nat) → Bool
  | [] => true
  | [r] => r.1 ≤ r.2
  | r :: s :: rest => r.1 ≤ r.2 && r.2 + 1 < s.1 && isTable (s :: rest)

/-! ## 2. Blanks -/

/-- The blank characters, as inclusive ranges of code points in rising order. -/
def blankRanges : List (Nat × Nat) :=
  [(0x9, 0xd), (0x1c, 0x20), (0x85, 0x85), (0xa0, 0xa0), (0x1680, 0x1680), (0x2000, 0x200a),
   (0x2028, 0x2029), (0x202f, 0x202f), (0x205f, 0x205f), (0x3000, 0x3000)]

/-- A blank character. -/
def isBlank (c : Char) : Bool :=
  inRanges blankRanges c

/-- A blank between the tokens of JSON: space, tab, line feed or carriage return. -/
def isJsonBlank (c : Char) : Bool :=
  c == ' ' || c == '\t' || c == '\n' || c == '\r'

/-- A blank that indents a line: space or tab. -/
def isIndent (c : Char) : Bool :=
  c == ' ' || c == '\t'

/-- Blanks of JSON are blank. -/
theorem isBlank_of_isJsonBlank {c : Char} (h : isJsonBlank c = true) : isBlank c = true := by
  simp only [isJsonBlank, Bool.or_eq_true, beq_iff_eq] at h
  rcases h with ((h | h) | h) | h <;> subst h <;> decide

/-- A text of blanks of JSON is a text of blanks. -/
theorem forall_isBlank {cs : List Char} (h : ∀ c ∈ cs, isJsonBlank c = true) :
    ∀ c ∈ cs, isBlank c = true := by
  intro c hc
  exact isBlank_of_isJsonBlank (h c hc)

/-- Whatever indents a line is a blank of JSON. -/
theorem isJsonBlank_of_isIndent {c : Char} (h : isIndent c = true) : isJsonBlank c = true := by
  simp only [isIndent, Bool.or_eq_true, beq_iff_eq] at h
  rcases h with h | h <;> subst h <;> decide

example : isTable blankRanges = true := by decide

/-- A colon is not blank. -/
theorem isBlank_colon : isBlank ':' = false := by decide

/-! ## 3. Trimming -/

/-- `text` without the blanks at its end. -/
def trimEnd (text : List Char) : List Char :=
  (text.reverse.dropWhile isBlank).reverse

/-- Whether `text` holds nothing but blanks. -/
def allBlank (text : List Char) : Bool :=
  text.all isBlank

end SchemaAssist.Text
