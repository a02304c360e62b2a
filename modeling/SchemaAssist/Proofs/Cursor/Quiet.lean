/-
# Text that closes every literal it opens

The value position of a property and its name are read off the end of the text before the cursor by
patterns that start at a colon or at a quote, wherever there is one.  A pattern may start inside a
literal, or at the quote that closes one, and then read on as if it stood outside.

`Quiet` texts close every literal they open, and no literal in them ends with a colon and spaces.
In such a text no pattern that starts too early gets through to the end:

* `Quiet.not_endsInPartialValue`: at the end of a quiet text no value is being typed, unless the
  last character is that of a bare word;
* `Body.isColonAndPartialValue_iff`: a literal is taken for a colon with a value only if it ends
  with a colon and spaces, which is what quiet texts exclude;
* `Quiet.propertySource_append`: a property is never found at a quote in a quiet text that is
  followed by another literal;
* `Quiet.propertySource_eq`: so the key in front of the last colon is found.
-/
import SchemaAssist.Proofs.Cursor.Literal

namespace SchemaAssist.Cursor

open SchemaAssist.Json SchemaAssist.Text

/-! ## 1. Quiet texts -/

/-- The text closes every literal that it opens, and no literal ends with a colon and spaces. -/
inductive Quiet : List Char → Prop where
  | nil : Quiet []
  | plain {c : Char} {cs : List Char} : c ≠ '"' → c ≠ '\\' → Quiet cs → Quiet (c :: cs)
  | literal {source cs : List Char} : Body source → endsInColonAndSpaces source = false → Quiet cs →
      Quiet ('"' :: (source ++ '"' :: cs))

namespace Quiet

theorem append {a b : List Char} (ha : Quiet a) (hb : Quiet b) : Quiet (a ++ b) := by
  induction ha with
  | nil => exact hb
  | plain hq hs _ ih => exact .plain hq hs ih
  | literal hbody hcolon _ ih => simpa using Quiet.literal hbody hcolon ih

/-- Text without quotes and backslashes is quiet. -/
theorem of_forall {cs : List Char} (h : ∀ c ∈ cs, c ≠ '"' ∧ c ≠ '\\') : Quiet cs := by
  induction cs with
  | nil => exact .nil
  | cons c cs ih =>
    obtain ⟨hquote, hback⟩ := h c List.mem_cons_self
    apply Quiet.plain hquote hback
    apply ih
    intro x hx
    exact h x (List.mem_cons_of_mem c hx)

/-- Blanks are quiet. -/
theorem blanks {cs : List Char} (h : ∀ c ∈ cs, isJsonBlank c = true) : Quiet cs := by
  apply of_forall
  intro c hc
  have hblank := h c hc
  constructor
  · rintro rfl
    exact absurd hblank (by decide)
  · rintro rfl
    exact absurd hblank (by decide)

/-- So is a colon with blanks around it. -/
theorem colon {mid gap : List Char} (hmid : ∀ c ∈ mid, isJsonBlank c = true)
    (hgap : ∀ c ∈ gap, isJsonBlank c = true) : Quiet (mid ++ ':' :: gap) := by
  have hmark : Quiet (':' :: gap) := .plain (by decide) (by decide) (blanks hgap)
  exact (blanks hmid).append hmark

theorem dropWhile {p : Char → Bool} (hp : p '"' = false) {text : List Char} (h : Quiet text) :
    Quiet (text.dropWhile p) := by
  induction h with
  | nil => exact .nil
  | @plain c cs hq hs hcs ih =>
    rw [List.dropWhile_cons]
    split
    · exact ih
    · exact .plain hq hs hcs
  | literal hbody hcolon hcs _ =>
    simpa [List.dropWhile_cons, hp] using Quiet.literal hbody hcolon hcs

/-- A quiet text is no value that is being typed, unless it is a bare word. -/
theorem not_isPartialValue {text : List Char} (h : Quiet text) (hb : text.all isBare = false) :
    isPartialValue text = false := by
  cases h with
  | nil => rfl
  | plain hq => simpa [isPartialValue, hq] using hb
  | literal hbody => simpa [isPartialValue] using hbody.staysOpen _

end Quiet

/-! ## 2. No value is being typed -/

/-- The last character of the text, if there is one, belongs to no bare word. -/
def EndsPlain (text : List Char) : Prop :=
  ∀ u c, text = u ++ [c] → isBare c = false

theorem EndsPlain.of_append {u v : List Char} (h : EndsPlain (u ++ v)) : EndsPlain v := by
  intro w c hw
  apply h (u ++ w) c
  rw [hw, List.append_assoc]

/-- Text that ends plainly is no bare word. -/
theorem EndsPlain.all_isBare {text : List Char} (h : EndsPlain text) (hne : text ≠ []) :
    text.all isBare = false := by
  rcases List.eq_nil_or_concat text with rfl | ⟨u, c, rfl⟩
  · exact absurd rfl hne
  · rw [List.concat_eq_append] at h ⊢
    simp [h u c rfl]

/-- Behind the closing quote of a literal nothing of it is left to be typed. -/
theorem Body.endsInPartialValue {source : List Char} (h : Body source)
    (hcolon : endsInColonAndSpaces source = false) (rest : List Char) :
    endsInPartialValue (source ++ '"' :: rest) = endsInPartialValue rest := by
  -- A colon in the literal, with the rest of the literal behind it, starts no value.
  have hstart : ∀ {c : Char} {cs : List Char}, Body cs → endsInColonAndSpaces (c :: cs) = false →
      (c == ':' && isPartialValue ((cs ++ '"' :: rest).dropWhile isIndent)) = false := by
    intro c cs hcs hc
    by_cases h : c = ':'
    · have hspace : cs.all (· == ' ') = false := by
        simp only [endsInColonAndSpaces, h, beq_self_eq_true, Bool.true_and,
          Bool.or_eq_false_iff] at hc
        exact hc.1
      obtain ⟨d, ds, hd, hpartial⟩ := hcs.not_partial (fun _ => isJsonBlank_of_isIndent) hspace rest
      rw [hd, hpartial, Bool.and_false]
    · simp [h]
  induction h with
  | nil => rfl
  | plain _ _ _ hcs ih =>
    rw [List.cons_append, Cursor.endsInPartialValue, hstart hcs hcolon, Bool.false_or,
      ih (endsInColonAndSpaces_of_cons hcolon)]
  | escape _ hcs ih =>
    have hcolon' := endsInColonAndSpaces_of_cons hcolon
    rw [List.cons_append, List.cons_append, Cursor.endsInPartialValue, Cursor.endsInPartialValue,
      hstart hcs hcolon', Bool.false_or, ih (endsInColonAndSpaces_of_cons hcolon')]
    rfl

/-- **At the end of a quiet text no value is being typed**, unless it is a bare word. -/
theorem Quiet.not_endsInPartialValue {text : List Char} (h : Quiet text) (hend : EndsPlain text) :
    endsInPartialValue text = false := by
  induction h with
  | nil => rfl
  | @plain c cs hq hs hcs ih =>
    have hpartial : isPartialValue (cs.dropWhile isIndent) = false := by
      cases hd : cs.dropWhile isIndent with
      | nil => rfl
      | cons d ds =>
        rw [← hd]
        refine (hcs.dropWhile (by decide)).not_isPartialValue
          (EndsPlain.all_isBare ?_ (by simp [hd]))
        refine EndsPlain.of_append (u := c :: cs.takeWhile isIndent) ?_
        simpa using hend
    rw [Cursor.endsInPartialValue, hpartial, Bool.and_false, Bool.false_or]
    exact ih (EndsPlain.of_append (u := [c]) hend)
  | @literal source cs hbody hcolon hcs ih =>
    have hend' : EndsPlain cs :=
      EndsPlain.of_append (u := '"' :: (source ++ ['"'])) (by simpa using hend)
    have hquote : ('"' == ':') = false := by decide
    rw [Cursor.endsInPartialValue, hquote, Bool.false_and, Bool.false_or,
      hbody.endsInPartialValue hcolon, ih hend']

/-! ## 3. The property in front of the last colon -/

/-- What is not skipped is still there. -/
theorem mem_dropWhile {p : Char → Bool} {c : Char} {cs : List Char} (hc : c ∈ cs)
    (hp : p c = false) : c ∈ cs.dropWhile p := by
  rw [← List.takeWhile_append_dropWhile (p := p) (l := cs)] at hc
  rcases List.mem_append.mp hc with h | h
  · exact absurd (List.all_eq_true.mp List.all_takeWhile c h) (by simp [hp])
  · exact h

/-- A quiet text with a literal is no colon with a value that is being typed. -/
theorem Quiet.not_isColonAndPartialValue {text : List Char} (h : Quiet text) (hq : '"' ∈ text) :
    isColonAndPartialValue text = false := by
  have hquiet := h.dropWhile (p := isBlank) (by decide)
  have hmem := mem_dropWhile (p := isBlank) hq (by decide)
  unfold isColonAndPartialValue
  split
  · rename_i rest hrest
    rw [hrest] at hquiet hmem
    have hmem : '"' ∈ rest := by simpa using hmem
    have hrestQuiet : Quiet rest := by
      cases hquiet with
      | plain _ _ h => exact h
    have hvalue := mem_dropWhile (p := isJsonBlank) hmem (by decide)
    have hpartial := (hrestQuiet.dropWhile (p := isJsonBlank) (by decide)).not_isPartialValue
      (List.all_eq_false.mpr ⟨'"', hvalue, by simp [isBare_quote]⟩)
    simp [hpartial, List.ne_nil_of_mem hvalue]
  · rfl

/-- The inside of a literal is a colon, with nothing but blanks before it and spaces behind it. -/
structure ReadsAsColon (source : List Char) : Prop where
  parts : ∃ blanks spaces : List Char, source = blanks ++ ':' :: spaces
    ∧ (∀ c ∈ blanks, isBlank c = true) ∧ spaces.all (· == ' ') = true

/-- **Read from outside, the inside of a literal is a colon and a value that is typed only if it
reads as a colon and the closing quote opens the value.** -/
theorem Body.isColonAndPartialValue_iff {source : List Char} (h : Body source)
    (rest : List Char) :
    isColonAndPartialValue (source ++ '"' :: rest) = true
      ↔ ReadsAsColon source ∧ Cursor.staysOpen rest = true := by
  constructor
  · intro hvalue
    have hbody := h.dropWhile (p := isBlank) (by decide)
    have hsplit := List.takeWhile_append_dropWhile (p := isBlank) (l := source)
    have hblanks : ∀ c ∈ source.takeWhile isBlank, isBlank c = true :=
      List.all_eq_true.mp List.all_takeWhile
    rw [isColonAndPartialValue, List.dropWhile_append] at hvalue
    cases hd : source.dropWhile isBlank with
    | nil =>
      have hquote : ('"' :: rest).dropWhile isBlank = '"' :: rest :=
        List.dropWhile_cons_of_neg (by decide)
      simp [hd, hquote] at hvalue
    | cons c spaces =>
      rw [hd] at hbody hsplit hvalue
      by_cases hc : c = ':'
      · subst hc
        have hspaces : Body spaces := by
          cases hbody with
          | plain _ _ _ h => exact h
        by_cases hspace : spaces.all (· == ' ') = true
        · have hquote : (spaces ++ '"' :: rest).dropWhile isJsonBlank = '"' :: rest :=
            dropWhile_spaces_quote (by decide) (by decide) hspace rest
          refine ⟨⟨_, spaces, hsplit.symm, hblanks, hspace⟩, ?_⟩
          simpa [hquote, isPartialValue] using hvalue
        · obtain ⟨d, ds, hds, hno⟩ :=
            hspaces.not_partial (fun _ hp => hp) (Bool.not_eq_true _ ▸ hspace) rest
          simp [hds, hno] at hvalue
      · simp [hc] at hvalue
  · rintro ⟨hcolon, hopen⟩
    obtain ⟨blanks, spaces, rfl, hblanks, hspaces⟩ := hcolon.parts
    have hvalue : (spaces ++ '"' :: rest).dropWhile isJsonBlank = '"' :: rest :=
      dropWhile_spaces_quote (by decide) (by decide) hspaces rest
    rw [List.append_assoc, isColonAndPartialValue, List.dropWhile_append_of_pos hblanks,
      List.cons_append, List.dropWhile_cons_of_neg (by decide)]
    simp [hvalue, isPartialValue, hopen]

/-- The inside of a literal that does not end with a colon and spaces is no colon with a value that
is being typed. -/
theorem Body.not_isColonAndPartialValue {source : List Char} (h : Body source)
    (hcolon : endsInColonAndSpaces source = false) (rest : List Char) :
    isColonAndPartialValue (source ++ '"' :: rest) = false := by
  by_contra hvalue
  obtain ⟨hreads, -⟩ := (h.isColonAndPartialValue_iff rest).mp (Bool.not_eq_false _ ▸ hvalue)
  obtain ⟨blanks, spaces, rfl, -, hspaces⟩ := hreads.parts
  have hend := endsInColonAndSpaces_of_append hcolon
  simp [endsInColonAndSpaces, hspaces] at hend

/-- What is found where a literal is read from outside, up to the next quote. -/
theorem Quiet.exists_of_closedLiteral {text : List Char} (h : Quiet text) :
    ∀ {source rest : List Char}, closedLiteral? text = some (source, rest) →
      ∃ inner cs, rest = inner ++ '"' :: cs ∧ Body inner ∧ endsInColonAndSpaces inner = false := by
  induction h with
  | nil => intro source rest h; simp [closedLiteral?] at h
  | plain hq hs _ ih =>
    intro source rest h
    rw [closedLiteral_cons hs, if_neg hq] at h
    split at h
    · cases h
    · simp only [Option.map_eq_some_iff, Prod.exists, Prod.mk.injEq] at h
      obtain ⟨_, _, hread, -, rfl⟩ := h
      exact ih hread
  | @literal inner cs hbody hcolon _ _ =>
    intro source rest h
    have hempty := Body.nil.closedLiteral (inner ++ '"' :: cs)
    rw [List.nil_append, h, Option.some.injEq, Prod.mk.injEq] at hempty
    exact ⟨inner, cs, hempty.2, hbody, hcolon⟩

/-- No key starts at the quote that closes a literal. -/
theorem Quiet.keySource_eq_none {text : List Char} (h : Quiet text) : keySource? text = none := by
  unfold keySource?
  split
  · rename_i source rest hread
    obtain ⟨inner, cs, rfl, hbody, hcolon⟩ := h.exists_of_closedLiteral hread
    simp [hbody.not_isColonAndPartialValue hcolon]
  · rfl

/-- No key starts inside a literal that another one follows. -/
theorem Body.keySource_eq_none {source text : List Char} (h : Body source) (ht : Quiet text)
    (hq : '"' ∈ text) : keySource? (source ++ '"' :: text) = none := by
  simp [keySource?, h.closedLiteral, ht.not_isColonAndPartialValue hq]

/-- From the inside of a literal on, the search goes on at the quote that closes the literal, if no
value follows. -/
theorem Body.propertySource_closing {source text : List Char} (h : Body source)
    (hno : isColonAndPartialValue text = false) :
    propertySource? (source ++ '"' :: text) = propertySource? ('"' :: text) := by
  induction h with
  | nil => rfl
  | plain hc _ _ _ ih =>
    rw [List.cons_append, propertySource?, if_neg hc]
    exact ih
  | @escape c cs _ hcs ih =>
    have hnone : keySource? (cs ++ '"' :: text) = none := by
      simp [keySource?, hcs.closedLiteral, hno]
    rw [List.cons_append, List.cons_append, propertySource?, if_neg (by decide), propertySource?]
    -- An escaped quote is tried as the start of a key like any other.
    split
    · rw [hnone]
      exact ih
    · exact ih

/-- From the inside of a literal on, the property is found after the literal. -/
theorem Body.propertySource {source text : List Char} (h : Body source) (ht : Quiet text)
    (hq : '"' ∈ text) : propertySource? (source ++ '"' :: text) = propertySource? text := by
  rw [h.propertySource_closing (ht.not_isColonAndPartialValue hq), propertySource?, if_pos rfl,
    ht.keySource_eq_none]

/-- **In a quiet text before another literal no property is found.** -/
theorem Quiet.propertySource_append {before text : List Char} (h : Quiet before) (ht : Quiet text)
    (hq : '"' ∈ text) : propertySource? (before ++ text) = propertySource? text := by
  induction h with
  | nil => rfl
  | plain hc _ _ ih => simpa [propertySource?, hc] using ih
  | @literal source cs hbody _ hcs ih =>
    have hquiet : Quiet (cs ++ text) := hcs.append ht
    have hmem : '"' ∈ cs ++ text := by simp [hq]
    have hassoc : '"' :: (source ++ '"' :: cs) ++ text
        = '"' :: (source ++ '"' :: (cs ++ text)) := by simp
    rw [hassoc, propertySource?, if_pos rfl, hbody.keySource_eq_none hquiet hmem,
      hbody.propertySource hquiet hmem, ih]

/-- **The key in front of the last colon is the property**, if nothing but blanks follows the
colon. -/
theorem Quiet.propertySource_eq {before source mid gap : List Char} (h : Quiet before)
    (hbody : Body source) (hcolon : endsInColonAndSpaces source = false) (hne : source ≠ [])
    (hmid : ∀ c ∈ mid, isJsonBlank c = true) (hgap : ∀ c ∈ gap, isJsonBlank c = true) :
    propertySource? (before ++ '"' :: (source ++ '"' :: (mid ++ ':' :: gap))) = some source := by
  have htext : Quiet ('"' :: (source ++ '"' :: (mid ++ ':' :: gap))) :=
    .literal hbody hcolon (.colon hmid hgap)
  have hvalue : isColonAndPartialValue (mid ++ ':' :: gap) = true := by
    have hgap' : gap.dropWhile isJsonBlank = [] := List.dropWhile_eq_nil_iff.mpr hgap
    rw [isColonAndPartialValue, List.dropWhile_append_of_pos (forall_isBlank hmid),
      List.dropWhile_cons_of_neg (by decide)]
    simp [hgap']
  rw [h.propertySource_append htext (by simp), propertySource?, if_pos rfl, keySource?,
    hbody.closedLiteral]
  simp [hvalue, hne]

end SchemaAssist.Cursor
