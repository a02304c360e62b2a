/-
# The indentation at a cursor

What is reported of the line that a cursor stands on, in the terms of that line alone.  The line at
the cursor lacks the carriage returns at its end (`WithoutReturns`), and the context gives the
longest run of spaces and tabs that the line starts with (`LongestIndent`), with its length in
levels (`context_on_line`).  Whatever the offset, there is such a line (`exists_line_at_offset`).

Carriage returns are cut off before the indentation is read.  They are no part of it, so it is the
indentation of the whole line, and a line of nothing but carriage returns has none.
-/
import SchemaAssist.Cursor.Context
import SchemaAssist.Proofs.Text.Lines
import SchemaAssist.Proofs.Text.Offset

namespace SchemaAssist.Cursor

open SchemaAssist.Text

/-! ## 1. A line without its carriage returns -/

/-- `rest` is what `line` is without the carriage returns at its end. -/
structure WithoutReturns (line rest : List Char) : Prop where
  /-- Nothing else is cut off. -/
  exists_append : ∃ n, line = rest ++ List.replicate n '\r'
  getLast?_ne : rest.getLast? ≠ some '\r'

theorem withoutReturns_dropCarriageReturns (line : List Char) :
    WithoutReturns line (dropCarriageReturns line) := by
  refine ⟨exists_append_replicate_return line, ?_⟩
  intro hlast
  rw [dropCarriageReturns, List.getLast?_reverse] at hlast
  have hnot := List.head?_dropWhile_not (· == '\r') line.reverse
  rw [hlast] at hnot
  cases hnot

/-! ## 2. The longest run of spaces and tabs -/

/-- `run` is the longest run of spaces and tabs at the start of `line`. -/
structure LongestIndent (line run : List Char) : Prop where
  isPrefix : run <+: line
  blank : ∀ c ∈ run, c = ' ' ∨ c = '\t'
  /-- Every other such run at the start of the line is a part of it. -/
  longest : ∀ other, other <+: line → (∀ c ∈ other, c = ' ' ∨ c = '\t') → other <+: run

theorem isIndent_iff {c : Char} : isIndent c = true ↔ c = ' ' ∨ c = '\t' := by
  simp [isIndent]

theorem longestIndent_leadingIndent (line : List Char) :
    LongestIndent line (leadingIndent line) := by
  refine ⟨List.takeWhile_prefix isIndent, ?_, ?_⟩
  · intro c hc
    exact isIndent_iff.mp (List.all_eq_true.mp List.all_takeWhile c hc)
  · rintro other ⟨rest, rfl⟩ hother
    have hindent : ∀ c ∈ other, isIndent c = true := fun c hc => isIndent_iff.mpr (hother c hc)
    rw [leadingIndent, List.takeWhile_append_of_pos hindent]
    exact List.prefix_append other _

/-! ## 3. The context on a line -/

/-- What the context reports is read off the line at the index. -/
theorem indentation_atIndex (config : Config) {text line : List Char} {i : Nat}
    (hline : currentLine text i = dropCarriageReturns line) :
    let context := Context.atIndex config text i
    LongestIndent line context.indent.toList
      ∧ context.indentLevel = context.indent.length / config.indentUnit
      ∧ indentLevel context.indent.toList config.indentUnit = .ok context.indentLevel := by
  intro context
  have hindent : context.indent = String.ofList (leadingIndent line) := by
    simp only [context, Context.atIndex, hline, leadingIndent_dropCarriageReturns]
  have hlevel : context.indentLevel = context.indent.length / config.indentUnit := by
    simp only [context, Context.atIndex, String.length_ofList]
  refine ⟨?_, hlevel, ?_⟩
  · rw [hindent, String.toList_ofList]
    exact longestIndent_leadingIndent line
  · rw [indentLevel_of_pos _ config.indentUnit_pos, hlevel, String.length_toList]

/-- **The context reports the indentation of the line that the cursor stands on.**  The cursor may
stand anywhere from the first character of the line to the line feed that ends it or the end of the
text, and each offset that stands for its index gives the same answer. -/
theorem context_on_line (config : Config) {lines : List (List Char)} {k i : Nat}
    {line : List Char} (hlines : ∀ l ∈ lines, '\n' ∉ l) (h : FallsIn lines k line i) :
    let text := ['\n'].intercalate lines
    WithoutReturns line (currentLine text i)
      ∧ toIndex config.encoding text (toOffset config.encoding text i) = i
      ∧ ∀ offset : Int, toIndex config.encoding text offset = i →
          let context := Context.ofOffset config text offset
          LongestIndent line context.indent.toList
            ∧ context.indentLevel = context.indent.length / config.indentUnit
            ∧ indentLevel context.indent.toList config.indentUnit = .ok context.indentLevel := by
  intro text
  have hline : currentLine text i = dropCarriageReturns line := currentLine_of_fallsIn h hlines
  refine ⟨?_, toIndex_toOffset _ h.le_length, ?_⟩
  · rw [hline]
    exact withoutReturns_dropCarriageReturns line
  · intro offset hoffset
    rw [Context.ofOffset, hoffset]
    exact indentation_atIndex config hline

/-- The cursor stands between a carriage return and the line feed behind it, and its offset counts
a character of the line above twice. -/
theorem context_on_line_beforeLineFeed :
    let line := [' ', '\t', ' ', '"', 'b', '"', '\r']
    let lines := [['\x7b', '😀'], line, []]
    let text := ['\n'].intercalate lines
    let context := Context.ofOffset {} text 11
    (∀ l ∈ lines, '\n' ∉ l) ∧ FallsIn lines 1 line 10
      ∧ WithoutReturns line (currentLine text 10)
      ∧ currentLine text 10 = [' ', '\t', ' ', '"', 'b', '"']
      ∧ toIndex .utf16 text 11 = 10
      ∧ LongestIndent line context.indent.toList
      ∧ context.indentLevel = context.indent.length / 2
      ∧ indentLevel context.indent.toList 2 = .ok context.indentLevel
      ∧ context.indent.toList = [' ', '\t', ' '] := by
  intro line lines text context
  have hlines : ∀ l ∈ lines, '\n' ∉ l := by decide
  have hfalls : FallsIn lines 1 line 10 := ⟨rfl, by decide, by decide⟩
  have hoffset : toIndex .utf16 text 11 = 10 := by decide
  obtain ⟨hline, -, hcontext⟩ := context_on_line {} hlines hfalls
  obtain ⟨hindent, hlevel, hlevels⟩ := hcontext 11 hoffset
  exact ⟨hlines, hfalls, hline, by decide, hoffset, hindent, hlevel, hlevels, by decide⟩

/-- **Every offset stands on one of the lines that the text splits into**, and the context reports
the indentation of that line. -/
theorem exists_line_at_offset (config : Config) (text : List Char) (offset : Int) :
    let i := toIndex config.encoding text offset
    let context := Context.ofOffset config text offset
    ∃ k line, FallsIn (text.splitOn '\n') k line i
      ∧ WithoutReturns line (currentLine text i)
      ∧ LongestIndent line context.indent.toList
      ∧ indentLevel context.indent.toList config.indentUnit = .ok context.indentLevel := by
  intro i context
  obtain ⟨k, line, h⟩ := exists_fallsIn_splitOn (toIndex_le_length config.encoding text offset)
  have hline : currentLine text i = dropCarriageReturns line := by
    have hat := currentLine_of_fallsIn h fun l hl => not_mem_of_mem_splitOn hl
    rwa [List.intercalate_splitOn] at hat
  obtain ⟨hlongest, -, hlevel⟩ := indentation_atIndex config hline
  refine ⟨k, line, h, ?_, hlongest, hlevel⟩
  rw [hline]
  exact withoutReturns_dropCarriageReturns line

/-- The index of a line feed belongs to the line before it, also if that line is empty. -/
example : currentLine ['a', '\n', '\n', '\t', 'b'] 1 = ['a']
    ∧ currentLine ['a', '\n', '\n', '\t', 'b'] 2 = []
    ∧ currentLine ['a', '\n', '\n', '\t', 'b'] 3 = ['\t', 'b'] := by decide

end SchemaAssist.Cursor
