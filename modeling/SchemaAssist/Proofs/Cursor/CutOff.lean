/-
# Where an escape is cut off

A cut right behind a backslash that escapes nothing yet leaves a text that no pattern of the value
position gets through: an open literal may not end so, and neither may a bare word.  So behind such
a backslash neither position nor property is found, whatever comes before it
(`CutOff.isAfterColon`, `CutOff.propertyName`).

It is the only way in which a cut inside a literal leaves no open literal (`Body.open_or_cutOff`).
-/
import SchemaAssist.Proofs.Cursor.Misreading

namespace SchemaAssist.Cursor

open SchemaAssist.Json SchemaAssist.Text

/-! ## 1. Backslashes that escape nothing yet -/

/-- The text ends with a backslash that escapes nothing yet. -/
inductive CutOff : List Char → Prop where
  | last : CutOff ['\\']
  | plain {c : Char} {cs : List Char} : c ≠ '\\' → CutOff cs → CutOff (c :: cs)
  | escape {c : Char} {cs : List Char} : CutOff cs → CutOff ('\\' :: c :: cs)

namespace CutOff

variable {text : List Char}

theorem mem (h : CutOff text) : '\\' ∈ text := by
  induction h with
  | last => simp
  | plain _ _ ih => simp [ih]
  | escape => simp

/-- The inside of an open literal may not end so. -/
theorem staysOpen (h : CutOff text) : staysOpen text = false := by
  induction h with
  | last => rfl
  | plain hback _ ih => rw [staysOpen_cons hback, ih, Bool.and_false]
  | escape _ ih => rw [Cursor.staysOpen, ih, Bool.and_false]

theorem dropWhile {p : Char → Bool} (hp : p '\\' = false) (h : CutOff text) :
    CutOff (text.dropWhile p) := by
  induction h with
  | last => simpa [hp] using last
  | plain hback h ih =>
    rw [List.dropWhile_cons]
    split
    · exact ih
    · exact plain hback h
  | escape h _ => simpa [List.dropWhile_cons, hp] using escape h

theorem isPartialValue (h : CutOff text) : isPartialValue text = false := by
  have hbare : text.all isBare = false :=
    List.all_eq_false.mpr ⟨'\\', h.mem, by decide +kernel⟩
  cases h with
  | last => decide +kernel
  | @plain c cs hback hcs =>
    rw [Cursor.isPartialValue]
    split
    · exact hcs.staysOpen
    · exact hbare
  | escape => rw [Cursor.isPartialValue, if_neg (by decide), hbare]

theorem endsInPartialValue (h : CutOff text) : endsInPartialValue text = false := by
  induction h with
  | last => decide +kernel
  | plain _ hcs ih =>
    rw [Cursor.endsInPartialValue, ih, (hcs.dropWhile (by decide)).isPartialValue, Bool.and_false,
      Bool.false_or]
  | escape hcs ih =>
    have hback : ('\\' == ':') = false := by decide
    rw [Cursor.endsInPartialValue, hback, Bool.false_and, Bool.false_or, Cursor.endsInPartialValue,
      ih, (hcs.dropWhile (by decide)).isPartialValue, Bool.and_false, Bool.false_or]

theorem exists_concat (h : CutOff text) : ∃ front, text = front ++ ['\\'] := by
  induction h with
  | last => exact ⟨[], rfl⟩
  | @plain c _ _ _ ih =>
    obtain ⟨front, rfl⟩ := ih
    exact ⟨c :: front, rfl⟩
  | @escape c _ _ ih =>
    obtain ⟨front, rfl⟩ := ih
    exact ⟨'\\' :: c :: front, rfl⟩

/-- **Behind such a backslash no value position is found.** -/
theorem isAfterColon (h : CutOff text) : isAfterColon text = false := by
  have hcolon : endsInColon text = false := by
    obtain ⟨front, rfl⟩ := h.exists_concat
    rw [endsInColon_concat]
    rfl
  rw [Cursor.isAfterColon, hcolon, h.endsInPartialValue, Bool.false_or]

/-- Behind a literal that is closed the text still ends so. -/
theorem of_closedLiteral (h : CutOff text) : ∀ {source rest : List Char},
    closedLiteral? text = some (source, rest) → CutOff rest := by
  induction h with
  | last =>
    intro source rest h
    cases h
  | plain hback hcs ih =>
    intro source rest h
    rw [closedLiteral_cons hback] at h
    split at h
    · obtain ⟨-, rfl⟩ := Prod.mk.inj (Option.some.inj h)
      exact hcs
    · split at h
      · cases h
      · simp only [Option.map_eq_some_iff, Prod.exists, Prod.mk.injEq] at h
        obtain ⟨_, _, hread, -, rfl⟩ := h
        exact ih hread
  | escape hcs ih =>
    intro source rest h
    rw [closedLiteral?] at h
    split at h
    · cases h
    · simp only [Option.map_eq_some_iff, Prod.exists, Prod.mk.injEq] at h
      obtain ⟨_, _, hread, -, rfl⟩ := h
      exact ih hread

theorem isColonAndPartialValue (h : CutOff text) : isColonAndPartialValue text = false := by
  have hblanks := h.dropWhile (p := isBlank) (by decide)
  unfold Cursor.isColonAndPartialValue
  split
  · rename_i rest hrest
    rw [hrest] at hblanks
    have hcut : CutOff rest := by
      cases hblanks with
      | plain _ h => exact h
    have hvalue := hcut.dropWhile (p := isJsonBlank) (by decide)
    simp [hvalue.isPartialValue, List.ne_nil_of_mem hvalue.mem]
  · rfl

theorem keySource (h : CutOff text) : keySource? text = none := by
  unfold keySource?
  split
  · rename_i source rest hread
    simp [(h.of_closedLiteral hread).isColonAndPartialValue]
  · rfl

/-- **Behind such a backslash no property is found.** -/
theorem propertyName (h : CutOff text) : propertyName? text = none := by
  have hsource : propertySource? text = none := by
    induction h with
    | last => rfl
    | plain _ hcs ih =>
      rw [propertySource?, hcs.keySource, ih, ite_self]
    | escape hcs ih =>
      rw [propertySource?, if_neg (by decide), propertySource?, hcs.keySource, ih, ite_self]
  rw [propertyName?, hsource, Option.map_none]

end CutOff

/-! ## 2. Where literals are cut -/

/-- Up to a place inside, a literal is open, unless the place is right behind a backslash. -/
theorem Body.open_or_cutOff {source rest : List Char} (h : Body (source ++ rest)) :
    Quote.inside.after source = .inside ∧ Cursor.staysOpen source = true
      ∨ Quote.inside.after source = .escaped ∧ CutOff source := by
  generalize hall : source ++ rest = all at h
  induction h generalizing source with
  | nil =>
    obtain ⟨rfl, -⟩ := List.append_eq_nil_iff.mp hall
    exact .inl ⟨rfl, rfl⟩
  | @plain c cs hquote hback hctl _ ih =>
    cases source with
    | nil => exact .inl ⟨rfl, rfl⟩
    | cons d source =>
      obtain ⟨rfl, hrest⟩ := List.cons.inj hall
      have hline := ne_lineFeed_of_le hctl
      have hstep : Quote.inside.step d = .inside := by simp [Quote.step, hquote, hback]
      rw [Quote.after_cons, hstep, staysOpen_cons hback]
      refine (ih hrest).imp ?_ ?_
      · rintro ⟨hafter, hopen⟩
        exact ⟨hafter, by simp [hquote, hline, hopen]⟩
      · rintro ⟨hafter, hcut⟩
        exact ⟨hafter, .plain hback hcut⟩
  | @escape c cs hctl _ ih =>
    rcases source with _ | ⟨d, _ | ⟨e, source⟩⟩
    · exact .inl ⟨rfl, rfl⟩
    · obtain ⟨rfl, -⟩ := List.cons.inj hall
      exact .inr ⟨rfl, .last⟩
    · simp only [List.cons_append, List.cons.injEq] at hall
      obtain ⟨rfl, rfl, hrest⟩ := hall
      have hline := ne_lineFeed_of_le hctl
      have hstep : Quote.inside.after ('\\' :: e :: source) = Quote.inside.after source := rfl
      rw [hstep]
      refine (ih hrest).imp ?_ ?_
      · rintro ⟨hafter, hopen⟩
        exact ⟨hafter, by simp [Cursor.staysOpen, hline, hopen]⟩
      · rintro ⟨hafter, hcut⟩
        exact ⟨hafter, .escape hcut⟩

/-- What stands before an escape that is cut off does not matter. -/
theorem Body.cutOff_append {source text : List Char} (h : Body source) (htext : CutOff text) :
    CutOff (source ++ text) := by
  induction h with
  | nil => exact htext
  | plain _ hback _ _ ih => exact .plain hback ih
  | escape _ _ ih => exact .escape ih

theorem Closed.cutOff_append {before text : List Char} (h : Closed before) (htext : CutOff text) :
    CutOff (before ++ text) := by
  induction h with
  | nil => exact htext
  | plain _ hback _ ih => exact .plain hback ih
  | literal hbody _ ih =>
    have hquote : '"' ≠ '\\' := by decide
    simpa using CutOff.plain hquote (hbody.cutOff_append (.plain hquote ih))

end SchemaAssist.Cursor
