/-
# A text of lines

A text is made of lines by a line feed between any two of them.  An index falls in a line from the
first character of the line on and up to the line feed that ends it, or the end of the text; so the
index of a line feed belongs to the line before it, and an empty line has one index of its own.

* `currentLine_of_fallsIn`: the line at an index is the one that the index falls in;
* `exists_fallsIn_splitOn`: every index of a text falls in one of the lines that it splits into.
-/
import SchemaAssist.Proofs.Text.Line

namespace SchemaAssist.Text

/-! ## 1. Parts and separators -/

/-- Every part but the first stands behind a separator. -/
theorem intercalate_cons (sep first : List Char) (rest : List (List Char)) :
    sep.intercalate (first :: rest) = first ++ rest.flatMap (sep ++ ·) := by
  induction rest generalizing first with
  | nil => simp
  | cons next rest ih => rw [List.intercalate_cons_cons, ih]; simp

/-- The parts before one of them end with a separator each, and those behind it start with one. -/
theorem intercalate_eq_append (sep : List Char) : ∀ {parts : List (List Char)} {k : Nat}
    {part : List Char}, parts[k]? = some part →
      sep.intercalate parts
        = (parts.take k).flatMap (· ++ sep)
          ++ (part ++ (parts.drop (k + 1)).flatMap (sep ++ ·))
  | first :: rest, 0, _, rfl => by simp [intercalate_cons]
  | first :: rest, k + 1, part, h => by
    have hrest : rest[k]? = some part := h
    have hne : rest ≠ [] := by
      rintro rfl
      cases h
    rw [List.intercalate_cons_of_ne_nil hne, intercalate_eq_append sep hrest]
    simp

/-- No part of a text that is split at a character holds the character. -/
theorem not_mem_of_mem_splitOn {c : Char} : ∀ {text part : List Char},
    part ∈ text.splitOn c → c ∉ part
  | [], part, h => by
    rw [List.splitOn_nil, List.mem_singleton] at h
    rw [h]
    exact List.not_mem_nil
  | x :: text, part, h => by
    obtain ⟨first, rest, hsplit⟩ := List.exists_cons_of_ne_nil (List.splitOn_ne_nil c text)
    have ih : ∀ p ∈ text.splitOn c, c ∉ p := fun p hp => not_mem_of_mem_splitOn hp
    rw [List.splitOn_cons_eq_if_modifyHead] at h
    split at h
    · rcases List.mem_cons.mp h with rfl | h
      · exact List.not_mem_nil
      · exact ih part h
    · rename_i hx
      have hx : c ≠ x := by
        rintro rfl
        exact hx (beq_self_eq_true c)
      rw [hsplit] at h ih
      rcases List.mem_cons.mp h with rfl | h
      · simp [hx, ih first List.mem_cons_self]
      · exact ih part (List.mem_cons_of_mem _ h)

/-! ## 2. Lines and their indices -/

/-- How many characters of a text of lines come before the `k`-th line: those of the lines before
it, and a line feed for each. -/
def lineStart : List (List Char) → Nat → Nat
  | line :: rest, k + 1 => line.length + 1 + lineStart rest k
  | _, _ => 0

/-- The index `i` of a text of lines falls in the `k`-th of them, which is `line`. -/
structure FallsIn (lines : List (List Char)) (k : Nat) (line : List Char) (i : Nat) : Prop where
  getElem? : lines[k]? = some line
  /-- The index is not before the first character of the line. -/
  start_le : lineStart lines k ≤ i
  /-- The index is not behind the line feed that ends the line, or the end of the text. -/
  le_end : i ≤ lineStart lines k + line.length

theorem length_flatMap_lineFeed : ∀ (lines : List (List Char)) (k : Nat),
    ((lines.take k).flatMap (· ++ ['\n'])).length = lineStart lines k
  | [], _ => by simp [lineStart]
  | _ :: _, 0 => rfl
  | line :: rest, k + 1 => by
    have ih := length_flatMap_lineFeed rest k
    simp only [List.take_succ_cons, List.flatMap_cons, List.length_append, List.length_singleton,
      ih, lineStart]

/-- A line behind the first one has its indices shifted by the first line and its line feed. -/
theorem FallsIn.cons {rest : List (List Char)} {k i : Nat} {line : List Char}
    (h : FallsIn rest k line i) (first : List Char) :
    FallsIn (first :: rest) (k + 1) line (first.length + 1 + i) := by
  obtain ⟨hline, hstart, hend⟩ := h
  refine ⟨hline, ?_, ?_⟩ <;> rw [lineStart] <;> omega

/-- The indices of a line are indices of the text. -/
theorem FallsIn.le_length {lines : List (List Char)} {k i : Nat} {line : List Char}
    (h : FallsIn lines k line i) : i ≤ (['\n'].intercalate lines).length := by
  have hend := h.le_end
  rw [intercalate_eq_append ['\n'] h.getElem?, List.length_append, length_flatMap_lineFeed,
    List.length_append]
  omega

/-- Every index of a text of lines falls in a line. -/
theorem exists_fallsIn : ∀ {lines : List (List Char)} {i : Nat}, lines ≠ [] →
    i ≤ (['\n'].intercalate lines).length → ∃ k line, FallsIn lines k line i
  | [first], i, _, hi => by
    rw [List.intercalate_singleton] at hi
    exact ⟨0, first, rfl, Nat.zero_le _, by simpa [lineStart] using hi⟩
  | first :: next :: rest, i, _, hi => by
    by_cases hfirst : i ≤ first.length
    · exact ⟨0, first, rfl, Nat.zero_le _, by simpa [lineStart] using hfirst⟩
    · simp only [List.intercalate_cons_cons, List.length_append, List.length_singleton] at hi
      obtain ⟨k, line, h⟩ := exists_fallsIn (i := i - (first.length + 1))
        (List.cons_ne_nil next rest) (by omega)
      have hshift : first.length + 1 + (i - (first.length + 1)) = i := by omega
      exact ⟨k + 1, line, hshift ▸ h.cons first⟩

/-- Every index of a text falls in one of the lines that the text splits into. -/
theorem exists_fallsIn_splitOn {text : List Char} {i : Nat} (hi : i ≤ text.length) :
    ∃ k line, FallsIn (text.splitOn '\n') k line i := by
  have htext : ['\n'].intercalate (text.splitOn '\n') = text := List.intercalate_splitOn '\n'
  exact exists_fallsIn (List.splitOn_ne_nil '\n' text) (by rwa [htext])

/-! ## 3. The line at an index -/

/-- The search backwards stops at the end of what came before, if that ends with a line feed, and
the search forwards where the next line feed stands. -/
theorem currentLine_between {before a b after : List Char}
    (hbefore : afterLastLineFeed before = []) (ha : '\n' ∉ a) (hb : '\n' ∉ b)
    (hafter : uptoLineFeed after = []) :
    currentLine (before ++ a ++ (b ++ after)) (before ++ a).length
      = dropCarriageReturns (a ++ b) := by
  have hindex : resolveIndex (before ++ a ++ (b ++ after)).length (before ++ a).length
      = (before ++ a).length := resolveIndex_natCast (by simp)
  have hb : ∀ c ∈ b, (c != '\n') = true := by
    intro c hc
    rw [bne_iff_ne]
    rintro rfl
    exact hb hc
  simp only [currentLine, hindex, List.take_left, List.drop_left]
  rw [afterLastLineFeed_append_of_not_mem before ha, hbefore, List.nil_append, uptoLineFeed,
    List.takeWhile_append_of_pos hb, ← uptoLineFeed, hafter, List.append_nil]

/-- Lines that end with a line feed each have nothing behind the last one. -/
theorem afterLastLineFeed_flatMap (lines : List (List Char)) :
    afterLastLineFeed (lines.flatMap (· ++ ['\n'])) = [] := by
  rcases List.eq_nil_or_concat lines with rfl | ⟨init, last, hlines⟩
  · rfl
  · rw [List.concat_eq_append] at hlines
    subst hlines
    have hsplit : (init ++ [last]).flatMap (· ++ ['\n'])
        = init.flatMap (· ++ ['\n']) ++ last ++ '\n' :: [] := by
      simp
    rw [hsplit]
    exact afterLastLineFeed_append_cons _ [] List.not_mem_nil

/-- Lines that start behind a line feed each have nothing before the first one. -/
theorem uptoLineFeed_flatMap (lines : List (List Char)) :
    uptoLineFeed (lines.flatMap (['\n'] ++ ·)) = [] := by
  cases lines <;> rfl

/-- **The line at an index is the one that the index falls in**, without its carriage returns. -/
theorem currentLine_of_fallsIn {lines : List (List Char)} {k i : Nat} {line : List Char}
    (h : FallsIn lines k line i) (hlines : ∀ l ∈ lines, '\n' ∉ l) :
    currentLine (['\n'].intercalate lines) i = dropCarriageReturns line := by
  have hline : '\n' ∉ line := hlines line (List.mem_of_getElem? h.getElem?)
  obtain ⟨n, rfl⟩ := Nat.exists_eq_add_of_le h.start_le
  have hn : n ≤ line.length := by have := h.le_end; omega
  -- The index cuts the line in two; each search runs through one of the halves.
  have htext : ['\n'].intercalate lines
      = (lines.take k).flatMap (· ++ ['\n']) ++ line.take n
        ++ (line.drop n ++ (lines.drop (k + 1)).flatMap (['\n'] ++ ·)) := by
    rw [intercalate_eq_append ['\n'] h.getElem?, List.append_assoc _ (line.take n),
      ← List.append_assoc (line.take n), List.take_append_drop]
  have hindex : lineStart lines k + n
      = ((lines.take k).flatMap (· ++ ['\n']) ++ line.take n).length := by
    rw [List.length_append, length_flatMap_lineFeed, List.length_take, Nat.min_eq_left hn]
  rw [htext, hindex, currentLine_between (afterLastLineFeed_flatMap _)
    (fun hc => hline (List.mem_of_mem_take hc)) (fun hc => hline (List.mem_of_mem_drop hc))
    (uptoLineFeed_flatMap _), List.take_append_drop]

end SchemaAssist.Text
