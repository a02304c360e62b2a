/-
# The search for the property, from the left

The property of a value is searched for from the left, at every quote: a quote that opens a literal,
one that closes a literal, and one that is escaped inside a literal.  Behind a text that closes its
literals, with a key and its tail, the search goes one of two ways:

* no quote before the key has a property, and the search starts at the key
  (`Closed.propertySource`);
* the key reads as a colon and the tail as an open literal; then the text between the last literal
  and the key is taken for the property, if it is on one line (`Closed.propertySource_borrowed`).

No property is found where the text ends with a backslash that escapes nothing yet
(`CutOff.propertyName`).
-/
import SchemaAssist.Proofs.Cursor.Misreading

namespace SchemaAssist.Cursor

open SchemaAssist.Json SchemaAssist.Text

/-! ## 1. Closing quotes -/

/-- Where a text that closes its literals is read as the inside of a literal, the literal ends at
the first quote. -/
theorem Closed.of_closedLiteral {text rest : List Char} (h : Closed text) :
    ∀ {source tail : List Char}, closedLiteral? (text ++ '"' :: rest) = some (source, tail) →
      '"' ∉ text ∧ '\n' ∉ text ∧ source = text ∧ tail = rest
        ∨ '"' ∈ text ∧ ∃ inner cs, Body inner ∧ Closed cs
          ∧ tail = inner ++ '"' :: (cs ++ '"' :: rest) := by
  induction h with
  | nil =>
    intro source tail h
    rw [List.nil_append, closedLiteral_cons (by decide), if_pos rfl, Option.some.injEq,
      Prod.mk.injEq] at h
    exact .inl ⟨by simp, by simp, h.1.symm, h.2.symm⟩
  | @plain c cs hquote hback _ ih =>
    intro source tail h
    rw [List.cons_append, closedLiteral_cons hback, if_neg hquote] at h
    split at h
    · cases h
    · rename_i hline
      simp only [Option.map_eq_some_iff, Prod.exists, Prod.mk.injEq] at h
      obtain ⟨source', tail', hread, rfl, rfl⟩ := h
      rcases ih hread with ⟨hq, hl, rfl, rfl⟩ | ⟨hq, hinner⟩
      · exact .inl ⟨by simp [hq, Ne.symm hquote], by simp [hl, Ne.symm hline], rfl, rfl⟩
      · exact .inr ⟨by simp [hq], hinner⟩
  | @literal inner cs hinner hcs _ =>
    intro source tail h
    rw [List.cons_append, closedLiteral_cons (by decide), if_pos rfl, Option.some.injEq,
      Prod.mk.injEq] at h
    exact .inr ⟨by simp, inner, cs, hinner, hcs, by rw [← h.2]; simp⟩

theorem Closed.closedLiteral {text : List Char} (h : Closed text) (hquote : '"' ∉ text)
    (hline : '\n' ∉ text) (rest : List Char) :
    closedLiteral? (text ++ '"' :: rest) = some (text, rest) := by
  induction h with
  | nil => rw [List.nil_append, closedLiteral_cons (by decide), if_pos rfl]
  | plain hq hback _ ih =>
    simp only [List.mem_cons, not_or] at hquote hline
    rw [List.cons_append, closedLiteral_cons hback, if_neg hq, if_neg (Ne.symm hline.1),
      ih hquote.2 hline.2]
    rfl
  | literal => simp at hquote

/-- Outside literals there is no backslash. -/
theorem Closed.backslash_not_mem {text : List Char} (h : Closed text) (hquote : '"' ∉ text) :
    '\\' ∉ text := by
  induction h with
  | nil => simp
  | plain _ hback _ ih =>
    simp only [List.mem_cons, not_or] at hquote ⊢
    exact ⟨Ne.symm hback, ih hquote.2⟩
  | literal => simp at hquote

/-- A text that closes its literals and goes on with one is no colon with a value that is typed. -/
theorem Closed.not_isColonAndPartialValue {text source : List Char} (h : Closed text)
    (hsource : Body source) (rest : List Char) :
    isColonAndPartialValue (text ++ '"' :: (source ++ '"' :: rest)) = false := by
  have hblanks := h.dropWhile (p := isBlank) (by decide)
  rw [isColonAndPartialValue, List.dropWhile_append]
  cases hd : text.dropWhile isBlank with
  | nil =>
    have hquote : ('"' :: (source ++ '"' :: rest)).dropWhile isBlank
        = '"' :: (source ++ '"' :: rest) := List.dropWhile_cons_of_neg (by decide)
    simp [hquote]
  | cons c cs =>
    rw [hd] at hblanks
    by_cases hc : c = ':'
    · subst hc
      have hcs : Closed cs := by
        cases hblanks with
        | plain _ _ h => exact h
      have hvalue := hcs.dropWhile (p := isJsonBlank) (by decide)
      have hno : isPartialValue
          ((cs ++ '"' :: (source ++ '"' :: rest)).dropWhile isJsonBlank) = false := by
        rw [List.dropWhile_append]
        cases hv : cs.dropWhile isJsonBlank with
        | nil =>
          have hquote : ('"' :: (source ++ '"' :: rest)).dropWhile isJsonBlank
              = '"' :: (source ++ '"' :: rest) := List.dropWhile_cons_of_neg (by decide)
          simp [hquote, isPartialValue, hsource.staysOpen]
        | cons d ds =>
          rw [hv] at hvalue
          cases hvalue with
          | plain hd => simpa using isPartialValue_of_quote hd (by simp)
          | literal hbody => simp [isPartialValue, hbody.staysOpen]
      have hne : (cs ++ '"' :: (source ++ '"' :: rest)).dropWhile isJsonBlank ≠ [] := by
        have hmem : '"' ∈ cs ++ '"' :: (source ++ '"' :: rest) := by simp
        exact List.ne_nil_of_mem (mem_dropWhile hmem (by decide))
      simp [hno, hne]
    · simp [hc]

/-! ## 2. Quotes before the key -/

/-- The last literal of a text is followed by `line`, which is not empty and on one line. -/
structure EndsInLine (text line : List Char) : Prop where
  /-- A quote comes right before it. -/
  parts : ∃ front, text = front ++ '"' :: line
  quote : '"' ∉ line
  lineFeed : '\n' ∉ line
  ne_nil : line ≠ []

namespace EndsInLine

variable {text line : List Char}

theorem append (h : EndsInLine text line) (front : List Char) :
    EndsInLine (front ++ text) line := by
  obtain ⟨front', rfl⟩ := h.parts
  exact ⟨⟨front ++ front', by simp⟩, h.quote, h.lineFeed, h.ne_nil⟩

/-- Quotes before the last one do not matter. -/
theorem of_append {front : List Char} (h : EndsInLine (front ++ text) line) (hquote : '"' ∈ text) :
    EndsInLine text line := by
  obtain ⟨front', hsplit⟩ := h.parts
  refine ⟨?_, h.quote, h.lineFeed, h.ne_nil⟩
  rcases List.append_eq_append_iff.mp hsplit with ⟨a, -, ha⟩ | ⟨a, -, ha⟩
  · exact ⟨a, ha⟩
  · cases a with
    | nil => exact ⟨[], ha.symm⟩
    | cons c a =>
      have hline : line = a ++ text := (List.cons.inj ha).2
      exact absurd (by simp [hline, hquote]) h.quote

/-- Without a quote in the second part, all of it follows the last literal. -/
theorem eq_of_append {front : List Char} (h : EndsInLine (front ++ '"' :: text) line)
    (hquote : '"' ∉ text) : line = text := by
  obtain ⟨front', hsplit⟩ := (h.of_append List.mem_cons_self).parts
  cases front' with
  | nil => exact (List.cons.inj hsplit).2.symm
  | cons c front' => exact absurd (by simp [(List.cons.inj hsplit).2]) hquote

/-- The line itself, with the quote before it. -/
theorem quote_cons (h : EndsInLine text line) : EndsInLine ('"' :: line) line :=
  ⟨⟨[], rfl⟩, h.quote, h.lineFeed, h.ne_nil⟩

end EndsInLine

/-- **The last literal of a text that closes its literals.** -/
theorem Closed.exists_literal {text line : List Char} (h : Closed text)
    (hline : EndsInLine text line) :
    ∃ front inner, text = front ++ '"' :: (inner ++ '"' :: line)
      ∧ Closed front ∧ Body inner ∧ Closed line := by
  induction h with
  | nil =>
    obtain ⟨front, hfront⟩ := hline.parts
    simp at hfront
  | @plain c cs hc hback _ ih =>
    obtain ⟨front, hfront⟩ := hline.parts
    cases front with
    | nil => exact absurd (List.cons.inj hfront).1 hc
    | cons d front =>
      have hcs : EndsInLine cs line :=
        ⟨⟨front, (List.cons.inj hfront).2⟩, hline.quote, hline.lineFeed, hline.ne_nil⟩
      obtain ⟨front, inner, rfl, hfront, hparts⟩ := ih hcs
      exact ⟨c :: front, inner, rfl, .plain hc hback hfront, hparts⟩
  | @literal inner cs hinner hcs ih =>
    rw [← List.cons_append] at hline
    by_cases hquote : '"' ∈ cs
    · have hlast : EndsInLine ('"' :: (inner ++ ['"']) ++ cs) line := by simpa using hline
      obtain ⟨front, inner', rfl, hfront, hparts⟩ := ih (hlast.of_append hquote)
      exact ⟨'"' :: (inner ++ '"' :: front), inner', by simp, .literal hinner hfront, hparts⟩
    · obtain rfl := hline.eq_of_append hquote
      exact ⟨[], inner, rfl, .nil, hinner, hcs⟩

section Search

variable {source tail : List Char}

/-- At a quote before a text that closes its literals, the text itself is taken for the key, or
nothing is. -/
theorem Closed.keySource_iff {text rest found : List Char} (h : Closed text) :
    keySource? (text ++ '"' :: rest) = some found
      ↔ found = text ∧ EndsInLine ('"' :: text) text ∧ isColonAndPartialValue rest = true := by
  constructor
  · intro hfound
    unfold keySource? at hfound
    split at hfound
    · rename_i source tail hread
      split at hfound
      · rename_i hvalue
        rw [Bool.and_eq_true] at hvalue
        obtain rfl := Option.some.inj hfound
        rcases h.of_closedLiteral hread with
          ⟨hquote, hline, rfl, rfl⟩ | ⟨-, inner, cs, hinner, hcs, rfl⟩
        · exact ⟨rfl, ⟨⟨[], rfl⟩, hquote, hline, by simpa using hvalue.1⟩, hvalue.2⟩
        · -- The next literal is closed before the end of the text, so it is no value.
          have hopen := ((hinner.isColonAndPartialValue_iff _).mp hvalue.2).2
          rw [hcs.staysOpen_append] at hopen
          exact absurd hopen (by decide)
      · cases hfound
    · cases hfound
  · rintro ⟨rfl, hline, hvalue⟩
    simp [keySource?, h.closedLiteral hline.quote hline.lineFeed, hline.ne_nil, hvalue]

/-- The search passes over a literal, up to the quote that closes it. -/
theorem Closed.propertySource_literal {inner cs : List Char} (hinner : Body inner)
    (hcs : Closed cs) (hsource : Body source) :
    propertySource? ('"' :: (inner ++ '"' :: cs) ++ '"' :: (source ++ '"' :: tail))
      = propertySource? ('"' :: (cs ++ '"' :: (source ++ '"' :: tail))) := by
  have hassoc : '"' :: (inner ++ '"' :: cs) ++ '"' :: (source ++ '"' :: tail)
      = '"' :: (inner ++ '"' :: (cs ++ '"' :: (source ++ '"' :: tail))) := by simp
  have hvalue := hcs.not_isColonAndPartialValue hsource tail
  have hopening : keySource? (inner ++ '"' :: (cs ++ '"' :: (source ++ '"' :: tail))) = none := by
    simp [keySource?, hinner.closedLiteral, hvalue]
  rw [hassoc, propertySource?, if_pos rfl, hopening]
  exact hinner.propertySource_closing hvalue

/-- **Before a key that is not taken for a colon no property is found**, nor where no text on one
line stands between the key and the last literal. -/
theorem Closed.propertySource {before : List Char} (h : Closed before) (hsource : Body source)
    (hno : isColonAndPartialValue (source ++ '"' :: tail) = true →
      ∀ line, ¬ EndsInLine before line) :
    propertySource? (before ++ '"' :: (source ++ '"' :: tail))
      = propertySource? ('"' :: (source ++ '"' :: tail)) := by
  induction h with
  | nil => rfl
  | @plain c cs hc _ _ ih =>
    rw [List.cons_append, propertySource?, if_neg hc]
    apply ih
    intro hkey line hline
    exact hno hkey line (hline.append [c])
  | @literal inner cs hinner hcs ih =>
    have hclosing : keySource? (cs ++ '"' :: (source ++ '"' :: tail)) = none := by
      rw [Option.eq_none_iff_forall_not_mem]
      intro found hfound
      obtain ⟨-, hline, hkey⟩ := hcs.keySource_iff.mp hfound
      exact hno hkey cs (hline.append ('"' :: inner))
    rw [Closed.propertySource_literal hinner hcs hsource, propertySource?, if_pos rfl, hclosing]
    apply ih
    intro hkey line hline
    have := hline.append ('"' :: (inner ++ ['"']))
    exact hno hkey line (by simpa using this)

/-- **Before a key that is taken for a colon, the text between it and the last literal is taken for
the property.** -/
theorem Closed.propertySource_borrowed {before line : List Char} (h : Closed before)
    (hsource : Body source) (hkey : isColonAndPartialValue (source ++ '"' :: tail) = true)
    (hline : EndsInLine before line) :
    propertySource? (before ++ '"' :: (source ++ '"' :: tail)) = some line := by
  obtain ⟨front, inner, rfl, hfront, hinner, hclosed⟩ := h.exists_literal hline
  -- The last literal is no key of a value, so nothing is found up to the quote that closes it.
  have hearlier : isColonAndPartialValue
        (inner ++ '"' :: (line ++ '"' :: (source ++ '"' :: tail))) = true →
      ∀ line, ¬ EndsInLine front line := by
    intro hvalue
    have hopen := ((hinner.isColonAndPartialValue_iff _).mp hvalue).2
    rw [hclosed.staysOpen_append] at hopen
    cases hopen
  have hsearch := hfront.propertySource hinner hearlier
  have hfound := hclosed.keySource_iff.mpr ⟨rfl, hline.quote_cons, hkey⟩
  have hassoc : front ++ '"' :: (inner ++ '"' :: line) ++ '"' :: (source ++ '"' :: tail)
      = front ++ '"' :: (inner ++ '"' :: (line ++ '"' :: (source ++ '"' :: tail))) := by simp
  have hliteral : '"' :: (inner ++ '"' :: (line ++ '"' :: (source ++ '"' :: tail)))
      = '"' :: (inner ++ '"' :: line) ++ '"' :: (source ++ '"' :: tail) := by simp
  rw [hassoc, hsearch, hliteral, Closed.propertySource_literal hinner hclosed hsource,
    propertySource?, if_pos rfl, hfound]

end Search

end SchemaAssist.Cursor
