/-
# The outline of a JSON text

To the analyses of the text before the cursor a literal is a body between quotes, and everything
else that is no mark and no blank is a word.  `Outline` is the grammar of JSON with the literals and
words taken that way.  It derives more than the grammar does: words that no reader takes, and
escapes that spell no text, such as one half of a surrogate pair alone.

* `Tree.outline`, `IsJson.outline`: the texts of documents, and those of the strict grammar, have an
  outline;
* `Outline.not_startsWithColon`: none of them starts with a colon.
-/
import SchemaAssist.Proofs.Cursor.Literal
import SchemaAssist.Proofs.Json.WellFormed

namespace SchemaAssist.Cursor

open SchemaAssist.Json SchemaAssist.Text

/-! ## 1. The grammar -/

/-- The grammar of JSON with coarser literals and words: what a symbol derives. -/
inductive Outline : Symbol → List Char → Prop where
  | word {text : List Char} : text ≠ [] → (∀ c ∈ text, isBareChar c = true) → Outline .value text
  | literal {source : List Char} : Body source → Outline .value ('"' :: (source ++ ['"']))
  | emptyArray {gap : List Char} : (∀ c ∈ gap, isJsonBlank c = true) →
      Outline .value ('[' :: (gap ++ [']']))
  | array {text : List Char} : Outline .items text → Outline .value ('[' :: (text ++ [']']))
  | emptyObject {gap : List Char} : (∀ c ∈ gap, isJsonBlank c = true) →
      Outline .value ('{' :: (gap ++ ['}']))
  | object {text : List Char} : Outline .members text → Outline .value ('{' :: (text ++ ['}']))
  | element {before text after : List Char} : (∀ c ∈ before, isJsonBlank c = true) →
      Outline .value text → (∀ c ∈ after, isJsonBlank c = true) →
      Outline .element (before ++ (text ++ after))
  | lastItem {text : List Char} : Outline .element text → Outline .items text
  | nextItem {text rest : List Char} : Outline .element text → Outline .items rest →
      Outline .items (text ++ ',' :: rest)
  | member {before source mid text : List Char} : (∀ c ∈ before, isJsonBlank c = true) →
      Body source → (∀ c ∈ mid, isJsonBlank c = true) → Outline .element text →
      Outline .member (before ++ '"' :: (source ++ '"' :: (mid ++ ':' :: text)))
  | lastMember {text : List Char} : Outline .member text → Outline .members text
  | nextMember {text rest : List Char} : Outline .member text → Outline .members rest →
      Outline .members (text ++ ',' :: rest)

/-! ## 2. The beginning of a value -/

theorem startsWithColon_blanks {cs : List Char} (h : ∀ c ∈ cs, isJsonBlank c = true)
    (rest : List Char) : startsWithColon (cs ++ rest) = startsWithColon rest := by
  rw [startsWithColon, startsWithColon, List.dropWhile_append_of_pos (forall_isBlank h)]

/-- A text that starts with neither a blank nor a colon. -/
theorem startsWithColon_cons {c : Char} (hblank : isBlank c = false) (hcolon : c ≠ ':')
    (cs : List Char) : startsWithColon (c :: cs) = false := by
  rw [startsWithColon, List.dropWhile_cons_of_neg (by simp [hblank])]
  simpa using hcolon

/-- **No value starts with a colon.** -/
theorem Outline.not_startsWithColon {text : List Char} (h : Outline .element text) :
    startsWithColon text = false := by
  cases h with
  | element hbefore hvalue _ =>
    rw [startsWithColon_blanks hbefore]
    cases hvalue with
    | word hne hword =>
      obtain ⟨c, cs, rfl⟩ := List.exists_cons_of_ne_nil hne
      have hc := hword c List.mem_cons_self
      refine startsWithColon_cons (not_isBlank_of_isBareChar hc) ?_ _
      rintro rfl
      exact absurd hc (by decide)
    | literal | emptyArray | array | emptyObject | object => rfl

/-! ## 3. Documents have an outline -/

theorem outline_member (l : Label) (after : Blanks) {text : List Char} (h : Outline .value text) :
    Outline .member (l.chars ++ (text ++ after.chars)) := by
  have hmember := Outline.member l.before.blank (body_of_spelled l.key.spelled) l.mid.blank
    (.element l.gap.blank h after.blank)
  simpa [Label.chars, Quotation.chars] using hmember

mutual

theorem Tree.outline : ∀ t : Tree, Outline .value t.chars
  | .bare w => .word w.chars_ne_nil w.isBareChar
  | .literal q => .literal (body_of_spelled q.spelled)
  | .emptyArray inner => .emptyArray inner.blank
  | .array elements => .array (Elements.outline elements)
  | .emptyObject inner => .emptyObject inner.blank
  | .object entries => .object (Entries.outline entries)

theorem Elements.outline : ∀ e : Elements, Outline .items e.chars
  | .last before t after => .lastItem (.element before.blank (Tree.outline t) after.blank)
  | .cons before t after others => by
    have hitem := Outline.element before.blank (Tree.outline t) after.blank
    simpa [Elements.chars] using hitem.nextItem (Elements.outline others)

theorem Entries.outline : ∀ e : Entries, Outline .members e.chars
  | .last l t after => .lastMember (outline_member l after (Tree.outline t))
  | .cons l t after others => by
    have hmember := outline_member l after (Tree.outline t)
    simpa [Entries.chars] using hmember.nextMember (Entries.outline others)

end

/-- **A well-formed text has an outline.** -/
theorem IsJson.outline {text : List Char} (h : IsJson text) : Outline .element text := by
  obtain ⟨before, t, after, rfl⟩ := Derives.isPiece h
  exact .element before.blank (Tree.outline t) after.blank

end SchemaAssist.Cursor
