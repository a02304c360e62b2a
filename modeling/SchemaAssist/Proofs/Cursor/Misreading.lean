/-
# Where the value position is misread

The value position of a property is read off the end of the text, without a look at which quotes
open a literal and which close one.  This file says of every cut of every document what the answer
is worth.  A cut that is taken for the value position of a property lies there
(`Place.IsMemberValue`), unless the text before it is a `Misread` one:

* a literal is open, and what stands in it so far reads like a value position by itself;
* or the last literal ends with a colon and spaces, and the line of its end goes on: then the quote
  that closes it is taken for one that opens the value.

`afterColon_at_cut` has both directions: a misread text is always taken for a value position.
-/
import Mathlib.Data.List.Induction
import SchemaAssist.Proofs.Cursor.ValuePosition
import SchemaAssist.Proofs.Json.Writing

namespace SchemaAssist.Cursor

open SchemaAssist.Json SchemaAssist.Text

/-! ## 1. Texts that close their literals -/

/-- The text closes every literal that it opens. -/
inductive Closed : List Char → Prop where
  | nil : Closed []
  | plain {c : Char} {cs : List Char} : c ≠ '"' → c ≠ '\\' → Closed cs → Closed (c :: cs)
  | literal {source cs : List Char} : Body source → Closed cs →
      Closed ('"' :: (source ++ '"' :: cs))

theorem Quiet.closed {text : List Char} (h : Quiet text) : Closed text := by
  induction h with
  | nil => exact .nil
  | plain hquote hback _ ih => exact .plain hquote hback ih
  | literal hbody _ _ ih => exact .literal hbody ih

namespace Closed

theorem append {a b : List Char} (ha : Closed a) (hb : Closed b) : Closed (a ++ b) := by
  induction ha with
  | nil => exact hb
  | plain hquote hback _ ih => exact .plain hquote hback ih
  | literal hbody _ ih => simpa using Closed.literal hbody ih

theorem dropWhile {p : Char → Bool} (hp : p '"' = false) {text : List Char} (h : Closed text) :
    Closed (text.dropWhile p) := by
  induction h with
  | nil => exact .nil
  | @plain c cs hquote hback hcs ih =>
    rw [List.dropWhile_cons]
    split
    · exact ih
    · exact .plain hquote hback hcs
  | literal hbody hcs _ => simpa [List.dropWhile_cons, hp] using Closed.literal hbody hcs

theorem after {text : List Char} (h : Closed text) : Quote.outside.after text = .outside := by
  induction h with
  | nil => rfl
  | plain hquote _ _ ih => simpa [Quote.step, hquote] using ih
  | literal hbody _ ih =>
    rw [Quote.after_cons, Quote.after_append]
    simpa [Quote.step, hbody.after] using ih

/-- Read as the inside of a literal, a text that opens another one ends there. -/
theorem staysOpen_append {text : List Char} (h : Closed text) (rest : List Char) :
    staysOpen (text ++ '"' :: rest) = false := by
  induction h with
  | nil => rw [List.nil_append, staysOpen_cons (by decide)]; rfl
  | plain _ hback _ ih => rw [List.cons_append, staysOpen_cons hback, ih, Bool.and_false]
  | literal => rw [List.cons_append, staysOpen_cons (by decide)]; rfl

/-- Read as the inside of a literal, the text goes on as long as there is no quote and no line
feed. -/
theorem staysOpen_iff {text : List Char} (h : Closed text) :
    staysOpen text = true ↔ '"' ∉ text ∧ '\n' ∉ text := by
  induction h with
  | nil => simp [staysOpen]
  | @plain c cs hquote hback _ ih =>
    have hquote' : '"' ≠ c := Ne.symm hquote
    rw [staysOpen_cons hback]
    simp [ih, hquote, hquote', ne_comm, and_left_comm]
  | literal => simp [staysOpen_cons]

end Closed

/-! ## 2. Misread texts -/

/-- The last literal ends with a colon and spaces, and the line of its end goes on. -/
structure Stale (text : List Char) : Prop where
  /-- The literal, and the rest of its line without another one. -/
  parts : ∃ before source rest : List Char,
    text = before ++ '"' :: (source ++ '"' :: rest) ∧ Closed before ∧ Body source
      ∧ endsInColonAndSpaces source = true ∧ Closed rest ∧ '"' ∉ rest ∧ '\n' ∉ rest

/-- A literal is open, and what stands in it reads like a value position by itself. -/
structure Mimics (text : List Char) : Prop where
  /-- The literal up to the end of the text. -/
  parts : ∃ before source : List Char,
    text = before ++ '"' :: source ∧ Closed before ∧ Quote.inside.Stays source
      ∧ isAfterColon source = true

/-- The end of the text is taken for the value position of a property because of a literal. -/
def Misread (text : List Char) : Prop :=
  Mimics text ∨ Stale text

/-- From a colon and spaces in a literal on, its closing quote opens a value. -/
theorem endsInPartialValue_of_stale {source rest : List Char}
    (h : endsInColonAndSpaces source = true) (hopen : staysOpen rest = true) :
    endsInPartialValue (source ++ '"' :: rest) = true := by
  induction source with
  | nil => cases h
  | cons c cs ih =>
    rw [endsInColonAndSpaces, Bool.or_eq_true, Bool.and_eq_true] at h
    rw [List.cons_append, endsInPartialValue, Bool.or_eq_true]
    rcases h with ⟨hcolon, hspaces⟩ | h
    · left
      rw [dropWhile_spaces_quote (by decide) (by decide) hspaces, hcolon, Bool.true_and]
      simpa [isPartialValue] using hopen
    · exact .inr (ih h)

/-- **A misread text is always taken for a value position.** -/
theorem Misread.isAfterColon {text : List Char} (h : Misread text) : isAfterColon text = true := by
  rcases h with h | h
  · obtain ⟨before, source, rfl, -, -, hsource⟩ := h.parts
    have := isAfterColon_append hsource (before ++ ['"'])
    simpa using this
  · obtain ⟨before, source, rest, rfl, -, -, hcolon, hrest, hline⟩ := h.parts
    have hpartial := endsInPartialValue_of_stale hcolon (hrest.staysOpen_iff.mpr hline)
    have hafter : Cursor.isAfterColon (source ++ '"' :: rest) = true := by
      rw [Cursor.isAfterColon, hpartial, Bool.or_true]
    have := isAfterColon_append hafter (before ++ ['"'])
    simpa using this

/-! ## 3. Between tokens -/

theorem forall_isBlank_of_isIndent {gap : List Char} (h : ∀ c ∈ gap, isIndent c = true) :
    ∀ c ∈ gap, isBlank c = true :=
  fun c hc => isBlank_of_isJsonBlank (isJsonBlank_of_isIndent (h c hc))

/-- The text ends with a colon, what indents a line, and a bare word. -/
structure TypesWord (text : List Char) : Prop where
  parts : ∃ before gap word : List Char, text = before ++ ':' :: (gap ++ word)
    ∧ (∀ c ∈ gap, isIndent c = true) ∧ word ≠ [] ∧ word.all isBare = true

/-- A value that is typed in a literal and goes on behind it starts at the closing quote. -/
theorem endsInPartialValue_literal {source rest : List Char} (h : Body source)
    (hpartial : endsInPartialValue (source ++ '"' :: rest) = true) :
    endsInPartialValue rest = true
      ∨ endsInColonAndSpaces source = true ∧ staysOpen rest = true := by
  by_cases hcolon : endsInColonAndSpaces source = true
  · -- From each colon of the literal on, either the literal is left at its closing quote, or not.
    have hstart : ∀ {c : Char} {cs : List Char}, Body cs →
        (c == ':' && isPartialValue ((cs ++ '"' :: rest).dropWhile isIndent)) = true →
        staysOpen rest = true := by
      intro c cs hcs hc
      rw [Bool.and_eq_true] at hc
      by_cases hspace : cs.all (· == ' ') = true
      · rw [dropWhile_spaces_quote (by decide) (by decide) hspace] at hc
        simpa [isPartialValue] using hc.2
      · rw [Bool.not_eq_true] at hspace
        obtain ⟨d, ds, hd, hno⟩ := hcs.not_partial (fun _ => isJsonBlank_of_isIndent) hspace rest
        rw [hd, hno] at hc
        exact absurd hc.2 (by decide)
    suffices hrest : endsInPartialValue rest = true ∨ staysOpen rest = true from
      hrest.imp_right fun hopen => ⟨hcolon, hopen⟩
    clear hcolon
    induction h with
    | nil => exact .inl (by simpa [endsInPartialValue] using hpartial)
    | @plain c cs _ _ _ hcs ih =>
      rw [List.cons_append, endsInPartialValue, Bool.or_eq_true] at hpartial
      exact hpartial.elim (fun hc => .inr (hstart hcs hc)) ih
    | @escape c cs _ hcs ih =>
      have hback : (('\\' == ':') && isPartialValue
          ((c :: (cs ++ '"' :: rest)).dropWhile isIndent)) = false := rfl
      rw [List.cons_append, List.cons_append, endsInPartialValue, hback, Bool.false_or,
        endsInPartialValue, Bool.or_eq_true] at hpartial
      exact hpartial.elim (fun hc => .inr (hstart hcs hc)) ih
  · rw [h.endsInPartialValue (Bool.not_eq_true _ ▸ hcolon)] at hpartial
    exact .inl hpartial

/-- A value that is being typed and leaves no literal open is a bare word. -/
theorem Closed.of_isPartialValue {text : List Char} (h : Closed text)
    (hvalue : isPartialValue text = true) : text ≠ [] ∧ text.all isBare = true := by
  cases h with
  | nil => cases hvalue
  | plain hquote => simpa [isPartialValue, hquote] using hvalue
  | literal hbody => simp [isPartialValue, hbody.staysOpen] at hvalue

/-- **Outside literals a value is typed in a bare word, or the text is stale.** -/
theorem Closed.of_endsInPartialValue {text : List Char} (h : Closed text)
    (hpartial : endsInPartialValue text = true) : TypesWord text ∨ Stale text := by
  induction h with
  | nil => cases hpartial
  | @plain c cs hquote hback hcs ih =>
    rw [endsInPartialValue, Bool.or_eq_true, Bool.and_eq_true] at hpartial
    rcases hpartial with ⟨hc, hvalue⟩ | hpartial
    · left
      have hc : c = ':' := by simpa using hc
      subst hc
      have hword := (hcs.dropWhile (p := isIndent) (by decide)).of_isPartialValue hvalue
      refine ⟨[], cs.takeWhile isIndent, cs.dropWhile isIndent, ?_, ?_, hword⟩
      · rw [List.takeWhile_append_dropWhile]
        rfl
      · intro x hx
        exact List.all_eq_true.mp List.all_takeWhile x hx
    · rcases ih hpartial with hword | hstale
      · obtain ⟨before, gap, word, rfl, hgap, hword⟩ := hword.parts
        exact .inl ⟨c :: before, gap, word, rfl, hgap, hword⟩
      · obtain ⟨before, source, rest, rfl, hbefore, hrest⟩ := hstale.parts
        exact .inr ⟨c :: before, source, rest, rfl, .plain hquote hback hbefore, hrest⟩
  | @literal source cs hbody hcs ih =>
    have hquote : (('"' == ':') && isPartialValue
        ((source ++ '"' :: cs).dropWhile isIndent)) = false := rfl
    rw [endsInPartialValue, hquote, Bool.false_or] at hpartial
    rcases endsInPartialValue_literal hbody hpartial with hpartial | ⟨hcolon, hopen⟩
    · rcases ih hpartial with hword | hstale
      · obtain ⟨before, gap, word, rfl, hgap, hword⟩ := hword.parts
        exact .inl ⟨'"' :: (source ++ '"' :: before), gap, word, by simp, hgap, hword⟩
      · obtain ⟨before, source', rest, rfl, hbefore, hrest⟩ := hstale.parts
        exact .inr ⟨'"' :: (source ++ '"' :: before), source', rest, by simp,
          .literal hbody hbefore, hrest⟩
    · exact .inr ⟨[], source, cs, rfl, .nil, hbody, hcolon, hcs, hcs.staysOpen_iff.mp hopen⟩

/-- Where no bare word and no colon comes last, only a stale text is taken for a value position. -/
theorem Closed.stale_of_isAfterColon {text : List Char} (h : Closed text) (hend : EndsPlain text)
    (hcolon : endsInColon text = false) (hafter : isAfterColon text = true) : Stale text := by
  rw [isAfterColon, hcolon, Bool.false_or] at hafter
  rcases h.of_endsInPartialValue hafter with hword | hstale
  · obtain ⟨before, gap, word, rfl, -, hne, hbare⟩ := hword.parts
    rcases List.eq_nil_or_concat word with hnil | ⟨u, c, hu⟩
    · exact absurd hnil hne
    · rw [List.concat_eq_append] at hu
      subst hu
      have hc := hend (before ++ ':' :: (gap ++ u)) c (by simp)
      simp [hc] at hbare
  · exact hstale

/-- Behind a literal and blanks. -/
theorem Closed.stale_of_literal {before source gap : List Char} (h : Closed before)
    (hsource : Body source) (hgap : ∀ c ∈ gap, isJsonBlank c = true)
    (hafter : isAfterColon (before ++ '"' :: (source ++ '"' :: gap)) = true) :
    Stale (before ++ '"' :: (source ++ '"' :: gap)) := by
  have hassoc : before ++ '"' :: (source ++ '"' :: gap)
      = before ++ '"' :: source ++ ['"'] ++ gap := by simp
  have hclosed : Closed (before ++ '"' :: (source ++ '"' :: gap)) :=
    h.append (.literal hsource (Quiet.blanks hgap).closed)
  refine hclosed.stale_of_isAfterColon ?_ ?_ hafter
  · rcases List.eq_nil_or_concat gap with rfl | ⟨u, c, rfl⟩
    · rw [hassoc, List.append_nil]
      exact endsPlain_concat isBare_quote
    · rw [List.concat_eq_append] at hassoc hgap ⊢
      rw [hassoc, ← List.append_assoc]
      exact endsPlain_concat (not_isBare_of_isJsonBlank (hgap c (by simp)))
  · rw [hassoc, endsInColon_append_blanks _ (forall_isBlank hgap), endsInColon_concat]
    rfl

/-! ## 4. In a literal -/

/-- In a literal, nothing before it is seen. -/
theorem endsInColon_append_quote (before source : List Char) :
    endsInColon (before ++ '"' :: source) = endsInColon source := by
  induction source using List.reverseRecOn with
  | nil =>
    rw [endsInColon_concat]
    rfl
  | append_singleton u c ih =>
    rw [← List.cons_append, ← List.append_assoc, endsInColon_concat, endsInColon_concat, ih]

/-- **A value that is typed in an open literal stands in the literal, or is the literal itself**,
where a colon and what indents a line come before it. -/
theorem Closed.endsInPartialValue_quote {before : List Char} (h : Closed before)
    {source : List Char} (hpartial : endsInPartialValue (before ++ '"' :: source) = true) :
    endsInPartialValue source = true
      ∨ staysOpen source = true
        ∧ ∃ front gap, before = front ++ ':' :: gap ∧ ∀ c ∈ gap, isIndent c = true := by
  induction h with
  | nil =>
    have hquote : ('"' == ':') = false := by decide
    rw [List.nil_append, Cursor.endsInPartialValue, hquote, Bool.false_and,
      Bool.false_or] at hpartial
    exact .inl hpartial
  | @plain c cs _ _ hcs ih =>
    rw [List.cons_append, Cursor.endsInPartialValue, Bool.or_eq_true, Bool.and_eq_true] at hpartial
    rcases hpartial with ⟨hc, hvalue⟩ | hpartial
    · -- What indents a line is all that may follow the colon, or another token would be typed.
      have hc : c = ':' := by simpa using hc
      subst hc
      have hstart := hcs.dropWhile (p := isIndent) (by decide)
      rw [List.dropWhile_append] at hvalue
      cases hstart' : cs.dropWhile isIndent with
      | nil =>
        have hquote : ('"' :: source).dropWhile isIndent = '"' :: source :=
          List.dropWhile_cons_of_neg (by decide)
        refine .inr ⟨?_, [], cs, rfl, List.dropWhile_eq_nil_iff.mp hstart'⟩
        simpa [hstart', hquote, isPartialValue] using hvalue
      | cons d ds =>
        rw [hstart'] at hstart hvalue
        simp only [List.isEmpty_cons, Bool.false_eq_true, if_false] at hvalue
        cases hstart with
        | plain hquote =>
          rw [List.cons_append, isPartialValue_of_quote hquote (by simp)] at hvalue
          exact absurd hvalue (by decide)
        | literal hbody =>
          simp [isPartialValue, hbody.staysOpen] at hvalue
    · refine (ih hpartial).imp_right ?_
      rintro ⟨hopen, front, gap, rfl, hgap⟩
      exact ⟨hopen, c :: front, gap, rfl, hgap⟩
  | @literal body cs hbody hcs ih =>
    have hquote : ('"' == ':') = false := by decide
    have hassoc : '"' :: (body ++ '"' :: cs) ++ '"' :: source
        = '"' :: (body ++ '"' :: (cs ++ '"' :: source)) := by simp
    rw [hassoc, Cursor.endsInPartialValue, hquote, Bool.false_and, Bool.false_or] at hpartial
    rcases endsInPartialValue_literal hbody hpartial with hpartial | ⟨-, hopen⟩
    · refine (ih hpartial).imp_right ?_
      rintro ⟨hopen, front, gap, rfl, hgap⟩
      exact ⟨hopen, '"' :: (body ++ '"' :: front), gap, by simp, hgap⟩
    · rw [hcs.staysOpen_append] at hopen
      exact absurd hopen (by decide)

/-- Unless a colon comes before the literal, it stands in the literal. -/
theorem Closed.endsInPartialValue_inside {before : List Char} (h : Closed before)
    (hcolon : endsInColon before = false) {source : List Char}
    (hpartial : endsInPartialValue (before ++ '"' :: source) = true) :
    endsInPartialValue source = true := by
  refine (h.endsInPartialValue_quote hpartial).resolve_right ?_
  rintro ⟨-, front, gap, rfl, hgap⟩
  rw [endsInColon_of_colon front (forall_isBlank_of_isIndent hgap)] at hcolon
  exact absurd hcolon (by decide)

/-- A value position in an open literal is one of the literal alone. -/
theorem Closed.mimics_of_isAfterColon {before source : List Char} (h : Closed before)
    (hcolon : endsInColon before = false) (hsource : Quote.inside.Stays source)
    (hafter : isAfterColon (before ++ '"' :: source) = true) :
    Mimics (before ++ '"' :: source) := by
  refine ⟨before, source, rfl, h, hsource, ?_⟩
  rw [isAfterColon, Bool.or_eq_true, endsInColon_append_quote] at hafter
  rw [isAfterColon, Bool.or_eq_true]
  exact hafter.imp_right (h.endsInPartialValue_inside hcolon)

/-! ## 5. In a bare word -/

/-- A character that is not in the second part lies in the first one. -/
theorem exists_of_append_eq {c : Char} {before word b rest : List Char}
    (h : before ++ word = b ++ c :: rest) (hc : c ∉ word) :
    ∃ mid, before = b ++ c :: mid ∧ mid ++ word = rest := by
  rcases List.append_eq_append_iff.mp h with ⟨a, -, ha⟩ | ⟨a, hb, ha⟩
  · exact absurd (by simp [ha]) hc
  · cases a with
    | nil =>
      rw [List.nil_append] at ha
      exact absurd (by simp [← ha]) hc
    | cons x mid =>
      obtain ⟨rfl, hmid⟩ := List.cons.inj ha
      exact ⟨mid, hb, hmid.symm⟩

theorem closed_of_isBareChar {word : List Char} (h : ∀ c ∈ word, isBareChar c = true) :
    Closed word := by
  apply Quiet.closed
  apply Quiet.of_forall
  intro c hc
  have := h c hc
  constructor <;> rintro rfl <;> exact absurd this (by decide)

/-- A bare word behind a text that ends neither in a colon nor in a bare word is not taken for a
value that is typed. -/
theorem Closed.stale_of_word {before word : List Char} (h : Closed before)
    (hcolon : endsInColon before = false) (hplain : EndsPlain before) (hne : word ≠ [])
    (hword : ∀ c ∈ word, isBareChar c = true)
    (hafter : isAfterColon (before ++ word) = true) : Stale (before ++ word) := by
  have hnocolon : ':' ∉ word := by
    intro hc
    exact absurd (hword _ hc) (by decide)
  have hclosed := h.append (closed_of_isBareChar hword)
  rw [isAfterColon, endsInColon_of_isBareChar hne hword, Bool.false_or] at hafter
  refine (hclosed.of_endsInPartialValue hafter).resolve_left ?_
  rintro ⟨b, gap, w, hsplit, hgap, hwne, hw⟩
  -- The colon lies before the word, and what stands between is blank or bare.
  obtain ⟨mid, hbefore, hmid⟩ := exists_of_append_eq hsplit hnocolon
  have hnotblank : ¬ ∀ x ∈ mid, isIndent x = true := by
    intro hindent
    rw [hbefore, endsInColon_of_colon b (forall_isBlank_of_isIndent hindent)] at hcolon
    exact absurd hcolon (by decide)
  rcases List.append_eq_append_iff.mp hmid with ⟨a, hgap', -⟩ | ⟨a, hmid', hw'⟩
  · apply hnotblank
    intro x hx
    exact hgap x (by simp [hgap', hx])
  · rcases List.eq_nil_or_concat a with rfl | ⟨a', c, rfl⟩
    · rw [List.append_nil] at hmid'
      rw [hmid'] at hnotblank
      exact hnotblank hgap
    · rw [List.concat_eq_append] at hmid' hw'
      have hc := hplain (b ++ ':' :: (gap ++ a')) c (by simp [hbefore, hmid'])
      simp [hw', hc] at hw

/-! ## 6. Between the tokens of a document -/

/-- What the text before a stage looks like. -/
structure Follows (s : Stage) (before : List Char) : Prop where
  closed : Closed before
  /-- A colon comes last only before the value of a member. -/
  colon : endsInColon before = true → s.place.IsMemberValue
  /-- Only behind a value may a bare word come last. -/
  plain : s.phase ≠ .done → EndsPlain before

/-- What is said of a cut: it is the value position of a member, or the text is misread. -/
def Judged (text : List Char) (p : Place) : Prop :=
  isAfterColon text = true → p.IsMemberValue ∨ Misread text

namespace Follows

variable {s s' : Stage} {before : List Char}

/-- Between tokens, where no bare word comes last. -/
theorem judged (h : Follows s before) (hplain : EndsPlain before) : Judged before s.place := by
  intro hafter
  by_cases hcolon : endsInColon before = true
  · exact .inl (h.colon hcolon)
  · exact .inr (.inr (h.closed.stale_of_isAfterColon hplain (Bool.not_eq_true _ ▸ hcolon) hafter))

/-- A character outside literals that belongs to no bare word, and a colon only before the value of
a member. -/
theorem concat (h : Follows s before) {c : Char} (hquote : c ≠ '"') (hback : c ≠ '\\')
    (hbare : isBare c = false)
    (hcolon : endsInColon (before ++ [c]) = true → s'.place.IsMemberValue) :
    Follows s' (before ++ [c]) where
  closed := h.closed.append (.plain hquote hback .nil)
  colon := hcolon
  plain _ := endsPlain_concat hbare

/-- Only before a value does a colon come last. -/
theorem endsInColon_eq_false (h : Follows s before) (hphase : s.phase ≠ .value) :
    endsInColon before = false := by
  by_contra hnot
  obtain ⟨⟨key, levels, hlevels⟩, hspot⟩ := h.colon (Bool.not_eq_false _ ▸ hnot)
  obtain ⟨levels', phase⟩ := s
  rw [Stage.levels_place] at hlevels
  subst hlevels
  cases phase <;> simp [Stage.place] at hspot hphase

/-- Inside a value that starts here, a colon before it makes it the value of a member. -/
theorem isMemberValue {levels : List Level} (h : Follows ⟨levels, .value⟩ before)
    (hcolon : endsInColon before = true) : Place.IsMemberValue ⟨levels, .token⟩ :=
  ⟨(h.colon hcolon).member, .inr rfl⟩

end Follows

/-! ## 7. Token by token -/

section Tokens

variable {s s' : Stage} {c : Char}

/-- One character between tokens. -/
theorem leads_concat (hquote : c ≠ '"') (hback : c ≠ '\\') (hbare : isBare c = false)
    (hcolon : ∀ before, Follows s before →
      endsInColon (before ++ [c]) = true → s'.place.IsMemberValue) :
    Leads Follows Judged s [(c, s'.place)] s' := by
  intro before h
  have h' := h.concat hquote hback hbare (hcolon before h)
  exact ⟨⟨h'.judged (endsPlain_concat hbare), trivial⟩, h'⟩

/-- A blank. -/
theorem leads_blank (s : Stage) (hc : isJsonBlank c = true) :
    Leads Follows Judged s [(c, s.place)] s := by
  apply leads_concat
  · rintro rfl
    exact absurd hc (by decide)
  · rintro rfl
    exact absurd hc (by decide)
  · exact not_isBare_of_isJsonBlank hc
  · intro before h hcolon
    rw [endsInColon_concat, if_pos (isBlank_of_isJsonBlank hc)] at hcolon
    exact h.colon hcolon

/-- A mark that opens, closes or separates. -/
theorem leads_mark (hc : c ∈ ['{', '}', '[', ']', ',']) :
    Leads Follows Judged s [(c, s'.place)] s' := by
  have hc' : c ≠ '"' ∧ c ≠ '\\' ∧ isBare c = false ∧ isBlank c = false ∧ c ≠ ':' := by
    simp only [List.mem_cons, List.not_mem_nil, or_false] at hc
    rcases hc with rfl | rfl | rfl | rfl | rfl <;> decide +kernel
  obtain ⟨hquote, hback, hbare, hblank, hcolon⟩ := hc'
  apply leads_concat hquote hback hbare
  intro before _ hends
  rw [endsInColon_concat, hblank] at hends
  exact absurd (by simpa using hends) hcolon

/-- A bare word. -/
theorem leads_bare_judged (levels : List Level) (w : Bare) :
    Leads Follows Judged ⟨levels, .value⟩ (Cuts.const w.chars ⟨levels, .token⟩)
      ⟨levels, .done⟩ := by
  intro before h
  refine ⟨?_, ?_⟩
  · apply holds_const
    intro u v hw hu hafter
    by_cases hcolon : endsInColon before = true
    · exact .inl (h.isMemberValue hcolon)
    · have hword : ∀ c ∈ u, isBareChar c = true := by
        intro c hc
        exact w.isBareChar c (by simp [hw, hc])
      exact .inr (.inr (h.closed.stale_of_word (Bool.not_eq_true _ ▸ hcolon)
        (h.plain (by simp)) hu hword hafter))
  · rw [Cuts.chars_const]
    refine ⟨h.closed.append (closed_of_isBareChar w.isBareChar), ?_, by simp⟩
    intro hends
    rw [endsInColon_of_isBareChar w.chars_ne_nil w.isBareChar] at hends
    cases hends

/-- A string that is a value. -/
theorem leads_literal_judged (levels : List Level) (q : Quotation) :
    Leads Follows Judged ⟨levels, .value⟩ (q.cuts levels) ⟨levels, .done⟩ := by
  intro before h
  have hbody := body_of_spelled q.spelled
  have hinside : Holds Judged before (Cuts.const ('"' :: q.source) ⟨levels, .token⟩) := by
    apply holds_const
    intro u v hsplit hu hafter
    obtain ⟨source, rfl, hsource⟩ :=
      (List.cons_eq_append_iff.mp hsplit).resolve_left fun hnil => hu hnil.1
    by_cases hcolon : endsInColon before = true
    · exact .inl (h.isMemberValue hcolon)
    · have hstays := (hsource ▸ hbody.stays).of_append
      have hcolon := Bool.not_eq_true _ ▸ hcolon
      exact .inr (.inl (h.closed.mimics_of_isAfterColon hcolon hstays hafter))
  have hchars : before ++ Cuts.chars (Cuts.const ('"' :: q.source) ⟨levels, .token⟩) ++ ['"']
      = before ++ '"' :: (q.source ++ '"' :: []) := by simp
  refine ⟨(holds_append _ _ _).mpr ⟨hinside, ?_, trivial⟩, ?_⟩
  · intro hafter
    rw [hchars] at hafter ⊢
    exact .inr (.inr (h.closed.stale_of_literal hbody (by simp) hafter))
  · rw [Quotation.cuts, Cuts.chars_append, ← List.append_assoc]
    refine ⟨?_, ?_, by simp⟩
    · have := h.closed.append (.literal hbody .nil)
      simpa using this
    · intro hends
      rw [Cuts.chars_cons, Cuts.chars_nil, endsInColon_concat, if_neg (by decide)] at hends
      exact absurd hends (by decide)

/-- The key of a member and its colon. -/
theorem leads_head_judged (levels : List Level) (l : Label) :
    Leads Follows Judged ⟨.object none :: levels, .name⟩ (l.head levels)
      ⟨l.levels levels, .value⟩ := by
  intro before h
  have hbody := body_of_spelled l.key.spelled
  have hcolon := h.endsInColon_eq_false (by simp)
  have hinside : Holds Judged before
      (Cuts.const (l.key.chars ++ l.mid.chars) ⟨.object none :: levels, .key⟩) := by
    apply holds_const
    intro u v hsplit hu hafter
    have hsplit : '"' :: (l.key.source ++ '"' :: l.mid.chars) = u ++ v := by
      rw [← hsplit]
      simp [Quotation.chars]
    obtain ⟨rest, rfl, hrest⟩ :=
      (List.cons_eq_append_iff.mp hsplit).resolve_left fun hnil => hu hnil.1
    rcases List.append_eq_append_iff.mp hrest with ⟨a, hrest, ha⟩ | ⟨a, hsource, -⟩
    · cases a with
      | nil =>
        rw [List.append_nil] at hrest
        rw [hrest] at hafter ⊢
        exact .inr (.inl (h.closed.mimics_of_isAfterColon hcolon hbody.stays hafter))
      | cons x mid =>
        obtain ⟨rfl, hmid⟩ := List.cons.inj ha
        have hblank : ∀ c ∈ mid, isJsonBlank c = true := by
          intro c hc
          exact l.mid.blank c (by simp [hmid, hc])
        rw [hrest] at hafter ⊢
        exact .inr (.inr (h.closed.stale_of_literal hbody hblank hafter))
    · have hstays := (hsource ▸ hbody.stays).of_append
      exact .inr (.inl (h.closed.mimics_of_isAfterColon hcolon hstays hafter))
  have hvalue : Place.IsMemberValue (Stage.place ⟨l.levels levels, .value⟩) :=
    ⟨⟨_, _, rfl⟩, .inl rfl⟩
  refine ⟨(holds_append _ _ _).mpr ⟨hinside, fun _ => .inl hvalue, trivial⟩, ?_⟩
  rw [Label.chars_head, ← List.append_assoc l.key.chars, ← List.append_assoc]
  refine ⟨?_, fun _ => hvalue, fun _ => endsPlain_concat (by decide +kernel)⟩
  have hmid : Closed (l.mid.chars ++ [':']) := (Quiet.colon l.mid.blank (by simp)).closed
  have := h.closed.append (.literal hbody hmid)
  simpa [Quotation.chars] using this

end Tokens

/-! ## 8. All cuts of all documents -/

/-- Every kind of token is judged rightly. -/
theorem sound_judged : Sound Follows Judged (fun _ => True) (fun _ => True) where
  blank s _ hc := leads_blank s hc
  bare := leads_bare_judged
  literal levels q _ := leads_literal_judged levels q
  openArray _ := leads_mark (by decide)
  closeArray _ _ _ := leads_mark (by decide)
  openObject _ := leads_mark (by decide)
  closeObject _ _ _ _ := leads_mark (by decide)
  nextElement _ := leads_mark (by decide)
  nextMember _ _ := leads_mark (by decide)
  head levels l _ _ := leads_head_judged levels l

/-- **A cut that is taken for the value position of a member lies there, unless the text before it
is misread, and a misread text is always taken for one.** -/
theorem afterColon_at_cut {d : Document} {n : Nat} (hn : n ≤ d.text.length) :
    (isAfterColon (d.text.take n) = true →
        (d.placeAt n).IsMemberValue ∨ Misread (d.text.take n))
      ∧ (Misread (d.text.take n) → isAfterColon (d.text.take n) = true) := by
  refine ⟨?_, Misread.isAfterColon⟩
  refine sound_judged.document (by simp) (by simp) ⟨.nil, ?_, ?_⟩ ?_ n hn
  · intro h
    cases h
  · intro _ u c h
    simp at h
  · intro h
    cases h

/-- An object whose only value is a string that ends with a colon. -/
def colonAtEnd : Document where
  before := .none
  tree := .object (.last
    { before := .none
      key := .ofText false ['k']
      mid := .none
      gap := .space }
    (.literal (.ofText false ['a', ':'])) .none)
  after := .none

example : colonAtEnd.text = "\x7b\"k\": \"a:\"\x7d".toList := by
  decide

/-- Behind that string the text is misread. -/
theorem afterColon_at_cut_colonAtEnd :
    10 ≤ colonAtEnd.text.length ∧ isAfterColon (colonAtEnd.text.take 10) = true
      ∧ Misread (colonAtEnd.text.take 10) := by
  have hn : 10 ≤ colonAtEnd.text.length := by decide
  have hafter : isAfterColon (colonAtEnd.text.take 10) = true := by decide +kernel
  refine ⟨hn, hafter, ((afterColon_at_cut hn).1 hafter).resolve_left ?_⟩
  rintro ⟨-, hspot⟩
  revert hspot
  decide +kernel

/-- **Behind a string that is a value and ends with a colon, where a member has ended, the cut is
taken for the value position of a member.** -/
theorem afterColon_behind_value :
    isAfterColon (colonAtEnd.text.take 10) = true ∧ (colonAtEnd.placeAt 10).spot = .member
      ∧ ¬ (colonAtEnd.placeAt 10).IsMemberValue := by
  have hspot : (colonAtEnd.placeAt 10).spot = .member := by decide +kernel
  refine ⟨by decide +kernel, hspot, ?_⟩
  rintro ⟨-, hvalue⟩
  simp [hspot] at hvalue

end SchemaAssist.Cursor
