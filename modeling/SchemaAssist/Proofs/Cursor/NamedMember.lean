/-
# Where a property is found at all

The property whose value is being typed is found by a search for a closed literal, a colon and at
most a partial value up to the end of the text.  This file says of every text, document or not, when
the search finds something:

* `isSome_propertyName_iff`: when the text ends in a member (`EndsInMember`) whose value is missing
  or partial;
* `EndsInMember.after`: whether a literal is open there is then a matter of the value, provided that
  none was open in front of the key.
-/
import SchemaAssist.Proofs.Cursor.ValuePosition

namespace SchemaAssist.Cursor

open SchemaAssist.Text

/-! ## 1. Closed literals -/

/-- A character other than a backslash with something behind it. -/
theorem ne_backslash_of_not_cons {c : Char} {cs : List Char} (h : c = '\\' → cs = [] → False)
    (h' : ∀ d ds, c = '\\' → cs = d :: ds → False) : c ≠ '\\' := by
  intro hc
  cases cs with
  | nil => exact h hc rfl
  | cons d ds => exact h' d ds hc rfl

theorem eq_of_closedLiteral {text : List Char} : ∀ {source rest : List Char},
    closedLiteral? text = some (source, rest) →
    text = source ++ '"' :: rest ∧ staysOpen source = true := by
  induction text using closedLiteral?.induct with
  | case1 => nofun
  | case2 => nofun
  | case3 ds =>
    intro source rest h
    simp [closedLiteral?] at h
  | case4 d ds hline ih =>
    intro source rest h
    rw [closedLiteral?, if_neg hline, Option.map_eq_some_iff] at h
    obtain ⟨⟨inner, after⟩, hinner, heq⟩ := h
    cases heq
    obtain ⟨rfl, hopen⟩ := ih hinner
    exact ⟨rfl, by simp [staysOpen, hline, hopen]⟩
  | case5 cs hback hback' =>
    intro source rest h
    rw [closedLiteral_cons (by decide)] at h
    cases h
    exact ⟨rfl, rfl⟩
  | case6 cs hback hback' hquote =>
    intro source rest h
    rw [closedLiteral_cons (by decide)] at h
    cases h
  | case7 c cs hback hback' hquote hline ih =>
    intro source rest h
    have hplain := ne_backslash_of_not_cons hback hback'
    rw [closedLiteral_cons hplain, if_neg hquote, if_neg hline, Option.map_eq_some_iff] at h
    obtain ⟨⟨inner, after⟩, hinner, heq⟩ := h
    cases heq
    obtain ⟨rfl, hopen⟩ := ih hinner
    exact ⟨rfl, by simp [staysOpen_cons hplain, hquote, hline, hopen]⟩

theorem closedLiteral_of_staysOpen {source : List Char} (h : staysOpen source = true)
    (rest : List Char) : closedLiteral? (source ++ '"' :: rest) = some (source, rest) := by
  induction source using staysOpen.induct with
  | case1 => rfl
  | case2 => cases h
  | case3 d ds ih =>
    simp only [staysOpen, Bool.and_eq_true, bne_iff_ne] at h
    simp [closedLiteral?, h.1, ih h.2]
  | case4 c cs hback hback' ih =>
    have hplain := ne_backslash_of_not_cons hback hback'
    simp only [staysOpen_cons hplain, Bool.and_eq_true, bne_iff_ne] at h
    rw [List.cons_append, closedLiteral_cons hplain, if_neg h.1.1, if_neg h.1.2, ih h.2]
    rfl

/-- **A closed literal is one that stays open up to its closing quote.** -/
theorem closedLiteral_eq_some_iff {text source rest : List Char} :
    closedLiteral? text = some (source, rest)
      ↔ text = source ++ '"' :: rest ∧ staysOpen source = true := by
  refine ⟨eq_of_closedLiteral, ?_⟩
  rintro ⟨rfl, h⟩
  exact closedLiteral_of_staysOpen h rest

/-- Inside a literal, what stays open leaves the literal open. -/
theorem after_of_staysOpen {source : List Char} (h : staysOpen source = true) :
    Quote.inside.after source = .inside := by
  induction source using staysOpen.induct with
  | case1 => rfl
  | case2 => cases h
  | case3 d ds ih =>
    simp only [staysOpen, Bool.and_eq_true] at h
    simpa [Quote.step] using ih h.2
  | case4 c cs hback hback' ih =>
    have hplain := ne_backslash_of_not_cons hback hback'
    simp only [staysOpen_cons hplain, Bool.and_eq_true, bne_iff_ne] at h
    simpa [Quote.step, hplain, h.1.1] using ih h.2

/-! ## 2. Members at the end of a text -/

/-- The text is `front`, the literal of a key, a colon with blanks around it, and `value`. -/
inductive EndsInMember (front value : List Char) : List Char → Prop where
  | intro {key mid gap : List Char} : key ≠ [] → staysOpen key = true →
      (∀ c ∈ mid, isBlank c = true) → (∀ c ∈ gap, isJsonBlank c = true) →
      EndsInMember front value (front ++ '"' :: (key ++ '"' :: (mid ++ ':' :: (gap ++ value))))

/-- Nothing stands there for a value, or the beginning of one. -/
def IsMissingOrPartial (value : List Char) : Prop :=
  value = [] ∨ isPartialValue value = true

/-- No blank starts a value. -/
theorem IsMissingOrPartial.dropWhile {value gap : List Char} (h : IsMissingOrPartial value)
    (hgap : ∀ c ∈ gap, isJsonBlank c = true) : (gap ++ value).dropWhile isJsonBlank = value := by
  rw [List.dropWhile_append_of_pos hgap]
  rcases h with rfl | h
  · rfl
  · cases value with
    | nil => rfl
    | cons c cs =>
      refine List.dropWhile_cons_of_neg fun hc => ?_
      have hquote : c ≠ '"' := by
        rintro rfl
        cases hc
      rw [isPartialValue, if_neg hquote, List.all_cons, not_isBare_of_isJsonBlank hc] at h
      cases h

/-- The text behind a key: a colon with blanks around it, and a value that is missing or partial. -/
theorem isColonAndPartialValue_iff {text : List Char} : isColonAndPartialValue text = true
    ↔ ∃ mid gap value, text = mid ++ ':' :: (gap ++ value) ∧ (∀ c ∈ mid, isBlank c = true)
        ∧ (∀ c ∈ gap, isJsonBlank c = true) ∧ IsMissingOrPartial value := by
  constructor
  · intro h
    unfold isColonAndPartialValue at h
    split at h
    · rename_i rest hrest
      refine ⟨text.takeWhile isBlank, rest.takeWhile isJsonBlank, rest.dropWhile isJsonBlank, ?_,
        List.all_eq_true.mp List.all_takeWhile, List.all_eq_true.mp List.all_takeWhile, ?_⟩
      · rw [List.takeWhile_append_dropWhile, ← hrest, List.takeWhile_append_dropWhile]
      · simpa [IsMissingOrPartial] using h
    · cases h
  · rintro ⟨mid, gap, value, rfl, hmid, hgap, hvalue⟩
    rw [isColonAndPartialValue, List.dropWhile_append_of_pos hmid,
      List.dropWhile_cons_of_neg (by decide)]
    simpa [hvalue.dropWhile hgap, IsMissingOrPartial] using hvalue

theorem isSome_keySource_iff {text : List Char} : (keySource? text).isSome = true
    ↔ ∃ key rest, text = key ++ '"' :: rest ∧ staysOpen key = true ∧ key ≠ []
        ∧ isColonAndPartialValue rest = true := by
  constructor
  · intro h
    unfold keySource? at h
    split at h
    · rename_i key rest hclosed
      obtain ⟨htext, hopen⟩ := closedLiteral_eq_some_iff.mp hclosed
      split at h
      · rename_i hkey
        rw [Bool.and_eq_true, Bool.not_eq_true', List.isEmpty_eq_false_iff] at hkey
        exact ⟨key, rest, htext, hopen, hkey⟩
      · cases h
    · cases h
  · rintro ⟨key, rest, rfl, hopen, hkey, hrest⟩
    simp [keySource?, closedLiteral_of_staysOpen hopen, hkey, hrest]

/-- The search tries every quote. -/
theorem isSome_propertySource_iff {text : List Char} : (propertySource? text).isSome = true
    ↔ ∃ front rest, text = front ++ '"' :: rest ∧ (keySource? rest).isSome = true := by
  induction text with
  | nil => simp [propertySource?]
  | cons c cs ih =>
    have hstep : (propertySource? (c :: cs)).isSome = true
        ↔ (c = '"' ∧ (keySource? cs).isSome = true) ∨ (propertySource? cs).isSome = true := by
      rw [propertySource?]
      split
      · rename_i hc
        cases keySource? cs <;> simp [hc]
      · rename_i hc
        simp [hc]
    rw [hstep, ih]
    constructor
    · rintro (⟨rfl, hkey⟩ | ⟨front, rest, rfl, hkey⟩)
      · exact ⟨[], cs, rfl, hkey⟩
      · exact ⟨c :: front, rest, rfl, hkey⟩
    · rintro ⟨front, rest, htext, hkey⟩
      rcases List.cons_eq_append_iff.mp htext with ⟨rfl, hcons⟩ | ⟨front', rfl, rfl⟩
      · obtain ⟨rfl, rfl⟩ := List.cons.inj hcons
        exact .inl ⟨rfl, hkey⟩
      · exact .inr ⟨front', rest, rfl, hkey⟩

/-- **A property is found just where the text ends in a member whose value is missing or
partial.** -/
theorem isSome_propertyName_iff {text : List Char} : (propertyName? text).isSome = true
    ↔ ∃ front value, EndsInMember front value text ∧ IsMissingOrPartial value := by
  rw [propertyName?, Option.isSome_map, isSome_propertySource_iff]
  constructor
  · rintro ⟨front, rest, rfl, hkey⟩
    obtain ⟨key, rest, rfl, hopen, hne, hrest⟩ := isSome_keySource_iff.mp hkey
    obtain ⟨mid, gap, value, rfl, hmid, hgap, hvalue⟩ := isColonAndPartialValue_iff.mp hrest
    exact ⟨front, value, .intro hne hopen hmid hgap, hvalue⟩
  · rintro ⟨front, value, @⟨key, mid, gap, hne, hopen, hmid, hgap⟩, hvalue⟩
    exact ⟨front, _, rfl, isSome_keySource_iff.mpr ⟨key, _, rfl, hopen, hne,
      isColonAndPartialValue_iff.mpr ⟨mid, gap, value, rfl, hmid, hgap, hvalue⟩⟩⟩

/-- **Where no literal is open in front of the key, the key and the colon leave none open.** -/
theorem EndsInMember.after {front value text : List Char} (h : EndsInMember front value text)
    (hfront : Quote.outside.after front ≠ .inside) :
    Quote.outside.after text = Quote.outside.after value := by
  obtain @⟨key, mid, gap, hne, hopen, hmid, hgap⟩ := h
  have hquote : (Quote.outside.after front).step '"' = .inside := by
    cases hstate : Quote.outside.after front with
    | inside => exact absurd hstate hfront
    | outside | escaped => rfl
  have hmid := Quote.after_neutral fun c hc => isNeutral_of_isBlank (hmid c hc)
  have hgap := Quote.after_neutral fun c hc => isNeutral_of_isJsonBlank (hgap c hc)
  have hclose : Quote.inside.step '"' = .outside := rfl
  have hcolon : Quote.outside.step ':' = .outside := rfl
  simp only [Quote.after_append, Quote.after_cons, hquote, after_of_staysOpen hopen, hclose, hmid,
    hcolon, hgap]

end SchemaAssist.Cursor
