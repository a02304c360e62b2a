/-
# Lines and their indentation

The line of a document that holds a given index, its indentation, and how many levels deep that
indentation is.  A line ends before a line feed; carriage returns at its end do not belong to it.

An index past the end of the document stands for the end, and a negative one counts back from the
end.
-/
import SchemaAssist.Text.Blank

namespace SchemaAssist.Text

/-! ## 1. The line at an index -/

/-- The index that a signed position stands for in a text of `length` characters. -/
def resolveIndex (length : Nat) (index : Int) : Nat :=
  if index < 0 then (index + length).toNat else min index.toNat length

/-- What follows the last line feed of `text`. -/
def afterLastLineFeed (text : List Char) : List Char :=
  (text.reverse.takeWhile (· != '\n')).reverse

/-- What comes before the first line feed of `text`. -/
def uptoLineFeed (text : List Char) : List Char :=
  text.takeWhile (· != '\n')

/-- `line` without the carriage returns at its end. -/
def dropCarriageReturns (line : List Char) : List Char :=
  (line.reverse.dropWhile (· == '\r')).reverse

/-- The line of `text` around `index`: from the last line feed before it to the next one. -/
def currentLine (text : List Char) (index : Int) : List Char :=
  let i := resolveIndex text.length index
  dropCarriageReturns (afterLastLineFeed (text.take i) ++ uptoLineFeed (text.drop i))

/-! ## 2. Indentation -/

/-- The spaces and tabs that a line starts with. -/
def leadingIndent (line : List Char) : List Char :=
  line.takeWhile isIndent

/-- A level of indentation that is no characters wide. -/
inductive IndentError where
  | zeroUnit
  deriving DecidableEq, Repr

/-- How many levels of `unit` characters an indentation spans, rounded down. -/
def indentLevel (indent : List Char) (unit : Int) : Except IndentError Int :=
  if unit = 0 then .error .zeroUnit else .ok (Int.fdiv indent.length unit)

/-! ## 3. Small facts -/

/-- An index inside the text stands for itself. -/
theorem resolveIndex_natCast {length i : Nat} (h : i ≤ length) :
    resolveIndex length (i : Int) = i := by
  unfold resolveIndex
  split <;> omega

/-- What follows a line feed and holds none is what follows the last line feed. -/
theorem afterLastLineFeed_append_cons (text line : List Char) (h : '\n' ∉ line) :
    afterLastLineFeed (text ++ '\n' :: line) = line := by
  have hline : ∀ c ∈ line.reverse, (c != '\n') = true := by
    intro c hc
    simp only [bne_iff_ne, ne_eq]
    rintro rfl
    exact h (List.mem_reverse.mp hc)
  rw [afterLastLineFeed, List.reverse_append, List.reverse_cons, List.append_assoc,
    List.takeWhile_append_of_pos hline]
  simp

/-- With a positive unit, levels are counted by division of natural numbers. -/
theorem indentLevel_of_pos (indent : List Char) {unit : Nat} (h : 0 < unit) :
    indentLevel indent (unit : Int) = .ok ((indent.length / unit : Nat) : Int) := by
  have : (unit : Int) ≠ 0 := by omega
  simp only [indentLevel, this, if_false]
  rw [Int.fdiv_eq_ediv_of_nonneg _ (by omega)]
  simp

end SchemaAssist.Text
