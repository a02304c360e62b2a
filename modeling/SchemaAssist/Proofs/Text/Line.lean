/-
# The line up to the cursor

What follows the last line feed of a text, when the text is put together of two parts: a line feed
in the second part cuts the first part off, and otherwise the line of the first part goes on.

The line at the end of the first part reaches into the second one, but its indentation does so only
while the first part has nothing else on that line (`leadingIndent_currentLine_append`).
-/
import SchemaAssist.Text.Line

namespace SchemaAssist.Text

/-! ## 1. The last line -/

/-- A line feed in the second part cuts the first part off. -/
theorem afterLastLineFeed_append_of_mem (a : List Char) {b : List Char} (h : '\n' ∈ b) :
    afterLastLineFeed (a ++ b) = afterLastLineFeed b := by
  have hlt : (b.reverse.takeWhile (· != '\n')).length ≠ b.reverse.length := by
    intro hlen
    have heq := (List.takeWhile_prefix (l := b.reverse) (· != '\n')).eq_of_length hlen
    have := List.all_takeWhile (p := (· != '\n')) (l := b.reverse)
    rw [heq, List.all_eq_true] at this
    exact absurd (this '\n' (by simpa using h)) (by decide)
  rw [afterLastLineFeed, List.reverse_append, List.takeWhile_append, if_neg hlt, afterLastLineFeed]

/-- Without a line feed in the second part the line of the first part goes on. -/
theorem afterLastLineFeed_append_of_not_mem (a : List Char) {b : List Char} (h : '\n' ∉ b) :
    afterLastLineFeed (a ++ b) = afterLastLineFeed a ++ b := by
  have hall : ∀ c ∈ b.reverse, (c != '\n') = true := by
    intro c hc
    simp only [bne_iff_ne, ne_eq]
    rintro rfl
    exact h (List.mem_reverse.mp hc)
  rw [afterLastLineFeed, List.reverse_append, List.takeWhile_append_of_pos hall]
  simp [afterLastLineFeed]

/-- The line is the end of the text. -/
theorem exists_append_afterLastLineFeed (text : List Char) :
    ∃ before, text = before ++ afterLastLineFeed text := by
  refine ⟨(text.reverse.dropWhile (· != '\n')).reverse, ?_⟩
  rw [afterLastLineFeed, ← List.reverse_append, List.takeWhile_append_dropWhile,
    List.reverse_reverse]

/-- A line holds no character that the text does not hold. -/
theorem mem_of_mem_afterLastLineFeed {text : List Char} {c : Char}
    (h : c ∈ afterLastLineFeed text) : c ∈ text := by
  obtain ⟨before, hb⟩ := exists_append_afterLastLineFeed text
  rw [hb]
  exact List.mem_append_right _ h

theorem lineFeed_not_mem_afterLastLineFeed (text : List Char) : '\n' ∉ afterLastLineFeed text := by
  intro h
  have hall := List.all_takeWhile (p := (· != '\n')) (l := text.reverse)
  have := List.all_eq_true.mp hall '\n' (List.mem_reverse.mp h)
  cases this

/-! ## 2. The indentation of a line that goes on -/

/-- What is cut off a line at its end is no part of its indentation. -/
theorem leadingIndent_append_of_forall (line : List Char) {rest : List Char}
    (h : ∀ c ∈ rest, isIndent c = false) : leadingIndent (line ++ rest) = leadingIndent line := by
  have hrest : rest.takeWhile isIndent = [] := by
    cases rest with
    | nil => rfl
    | cons c cs => simp [h c List.mem_cons_self]
  rw [leadingIndent, List.takeWhile_append, hrest, List.append_nil, leadingIndent]
  split
  · rename_i hall
    exact ((List.takeWhile_prefix isIndent).eq_of_length hall).symm
  · rfl

/-- Only carriage returns are cut off a line. -/
theorem exists_append_replicate_return (line : List Char) :
    ∃ n, line = dropCarriageReturns line ++ List.replicate n '\r' := by
  have hreturns : ∀ c ∈ (line.reverse.takeWhile (· == '\r')).reverse, c = '\r' := by
    intro c hc
    have hall := List.all_takeWhile (p := (· == '\r')) (l := line.reverse)
    exact beq_iff_eq.mp (List.all_eq_true.mp hall c (List.mem_reverse.mp hc))
  refine ⟨(line.reverse.takeWhile (· == '\r')).reverse.length, ?_⟩
  rw [← List.eq_replicate_of_mem hreturns, dropCarriageReturns, ← List.reverse_append,
    List.takeWhile_append_dropWhile, List.reverse_reverse]

theorem leadingIndent_dropCarriageReturns (line : List Char) :
    leadingIndent (dropCarriageReturns line) = leadingIndent line := by
  obtain ⟨n, hn⟩ := exists_append_replicate_return line
  have hreturns : ∀ c ∈ List.replicate n '\r', isIndent c = false := by
    intro c hc
    rw [List.eq_of_mem_replicate hc]
    decide
  have hline := leadingIndent_append_of_forall (dropCarriageReturns line) hreturns
  rw [← hn] at hline
  exact hline.symm

/-- A line feed ends the indentation as it ends the line. -/
theorem leadingIndent_append_uptoLineFeed (line rest : List Char) :
    leadingIndent (line ++ uptoLineFeed rest) = leadingIndent (line ++ rest) := by
  have hrest : (uptoLineFeed rest).takeWhile isIndent = rest.takeWhile isIndent := by
    induction rest with
    | nil => rfl
    | cons c cs ih =>
      by_cases hc : c = '\n'
      · subst hc
        rfl
      · rw [uptoLineFeed] at ih
        rw [uptoLineFeed, List.takeWhile_cons_of_pos (by simpa using hc), List.takeWhile_cons,
          List.takeWhile_cons, ih]
  rw [leadingIndent, leadingIndent, List.takeWhile_append, List.takeWhile_append, hrest]

/-- **The indentation of the line at the end of a text** is that of its last line and whatever the
text goes on with. -/
theorem leadingIndent_currentLine_append (text rest : List Char) :
    leadingIndent (currentLine (text ++ rest) text.length)
      = leadingIndent (afterLastLineFeed text ++ rest) := by
  have hindex : resolveIndex (text ++ rest).length text.length = text.length :=
    resolveIndex_natCast (by simp)
  simp only [currentLine, hindex, List.take_left, List.drop_left]
  rw [leadingIndent_dropCarriageReturns, leadingIndent_append_uptoLineFeed]

/-- On a line with another character the indentation has ended. -/
theorem leadingIndent_append_of_mem {line : List Char} {c : Char} (hc : c ∈ line)
    (hindent : isIndent c = false) (rest : List Char) :
    leadingIndent (line ++ rest) = leadingIndent line := by
  have hshort : (line.takeWhile isIndent).length ≠ line.length := by
    intro hlen
    have hall := List.all_takeWhile (p := isIndent) (l := line)
    rw [(List.takeWhile_prefix isIndent).eq_of_length hlen] at hall
    rw [List.all_eq_true.mp hall c hc] at hindent
    cases hindent
  rw [leadingIndent, List.takeWhile_append, if_neg hshort, leadingIndent]

end SchemaAssist.Text
