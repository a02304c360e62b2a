/-
# Inside the value of a member

What the analyses of the value position answer while the value of a member is typed: at every cut
after the first character of a string, a number or a name, up to the quote that closes the string or
to the end of the word.

Such a cut lies in the value position, and the property is the key of the member.  The analyses say
so with three exceptions, and this file says exactly when:

* behind a backslash that escapes nothing yet they find neither position nor property
  (`CutOff.isAfterColon`, `CutOff.propertyName`);
* where more than spaces and tabs stands between the colon and the value, the position is found only
  if the text is `Misread` (`TypedMember.isAfterColon_iff`);
* in a bare word behind a key that reads as a colon, what stands between the key and the literal
  before it is taken for the property (`TypedMember.Borrows`).

`answers_in_value` puts them together for all cuts of all documents.
-/
import SchemaAssist.Proofs.Cursor.Borrowed
import SchemaAssist.Proofs.Cursor.CutOff

namespace SchemaAssist.Cursor

open SchemaAssist.Json SchemaAssist.Text

/-! ## 1. A member whose value is typed -/

/-- A text up to the value of a member. -/
structure MemberHead where
  before : List Char
  closed : Closed before
  key : Quotation
  mid : Blanks
  gap : Blanks

/-- The part of a scalar that was typed. -/
inductive Typed where
  | word (chars : List Char) (ne_nil : chars ≠ []) (bare : ∀ c ∈ chars, isBareChar c = true)
  /-- An opening quote and the beginning of what the literal holds; `rest` is missing. -/
  | literal (source rest : List Char) (body : Body (source ++ rest))

/-- The characters that were typed. -/
def Typed.chars : Typed → List Char
  | .word chars _ _ => chars
  | .literal source _ _ => '"' :: source

/-- A text that ends inside the value of a member. -/
structure TypedMember extends MemberHead where
  value : Typed

namespace MemberHead

/-- The key that the literal stands for. -/
def name (h : MemberHead) : String :=
  String.ofList h.key.text

/-- The text up to the colon. -/
def upToColon (h : MemberHead) : List Char :=
  h.before ++ (h.key.chars ++ h.mid.chars)

/-- The whole text. -/
def text (h : MemberHead) : List Char :=
  h.upToColon ++ ':' :: h.gap.chars

theorem closed_text (h : MemberHead) : Closed h.text := by
  have hcolon : Closed (h.mid.chars ++ ':' :: h.gap.chars) :=
    (Quiet.colon h.mid.blank h.gap.blank).closed
  have := h.closed.append (.literal (body_of_spelled h.key.spelled) hcolon)
  simpa [text, upToColon, Quotation.chars] using this

end MemberHead

namespace TypedMember

/-- The whole text. -/
def text (m : TypedMember) : List Char :=
  m.toMemberHead.text ++ m.value.chars

/-- What follows the key. -/
def tail (m : TypedMember) : List Char :=
  m.mid.chars ++ ':' :: (m.gap.chars ++ m.value.chars)

/-- Nothing but spaces and tabs stands between the colon and the value. -/
def OnLine (m : TypedMember) : Prop :=
  ∀ c ∈ m.gap.chars, isIndent c = true

/-- The value is a bare word, the key reads as a colon, and `line` stands between the key and the
literal before it; neither in `line` nor behind the key is a line feed. -/
structure Borrows (m : TypedMember) (line : List Char) : Prop where
  line : EndsInLine m.before line
  key : ReadsAsColon m.key.source
  /-- The value is no literal. -/
  quote : '"' ∉ m.value.chars
  lineFeed : '\n' ∉ m.mid.chars ++ m.gap.chars

variable (m : TypedMember)

theorem text_eq_key : m.text = m.before ++ '"' :: (m.key.source ++ '"' :: m.tail) := by
  simp [text, tail, MemberHead.text, MemberHead.upToColon, Quotation.chars]

end TypedMember

theorem isBare_of_isBareChar {c : Char} (h : isBareChar c = true) : isBare c = true := by
  simp only [isBareChar, Bool.or_eq_true, beq_iff_eq] at h
  simp only [isBare, Bool.or_eq_true, beq_iff_eq]
  exact h.imp (by tauto) isWord_of_isAlphanum

namespace Typed

/-- **What was typed is a value that is typed, unless it ends with a backslash that escapes nothing
yet.** -/
theorem partial_or_cutOff : ∀ v : Typed,
    Quote.outside.after v.chars ≠ .escaped ∧ isPartialValue v.chars = true
      ∨ Quote.outside.after v.chars = .escaped ∧ CutOff v.chars
  | .word [] hne _ => absurd rfl hne
  | .word (c :: cs) _ hbare => by
    have hafter := Quote.after_neutral fun c hc => isNeutral_of_isBareChar (hbare c hc)
    have hquote : c ≠ '"' := (isNeutral_of_isBareChar (hbare c List.mem_cons_self)).ne_quote
    refine .inl ⟨by simp [chars, hafter], ?_⟩
    rw [chars, isPartialValue, if_neg hquote, List.all_eq_true]
    intro d hd
    exact isBare_of_isBareChar (hbare d hd)
  | .literal source rest hbody => by
    have hstep : Quote.outside.after ('"' :: source) = Quote.inside.after source := rfl
    rw [chars, hstep]
    refine hbody.open_or_cutOff.imp ?_ ?_
    · rintro ⟨hafter, hopen⟩
      exact ⟨by simp [hafter], by simpa [isPartialValue] using hopen⟩
    · rintro ⟨hafter, hcut⟩
      exact ⟨hafter, .plain (by decide) hcut⟩

/-- A value starts with no blank. -/
theorem exists_cons : ∀ v : Typed, ∃ c cs, v.chars = c :: cs ∧ isBlank c = false
  | .word [] hne _ => absurd rfl hne
  | .word (c :: cs) _ hbare =>
    ⟨c, cs, rfl, not_isBlank_of_isBareChar (hbare c List.mem_cons_self)⟩
  | .literal source _ _ => ⟨'"', source, rfl, by decide⟩

/-- Blanks before a value are skipped, and nothing of the value is. -/
theorem dropWhile_append (v : Typed) {p : Char → Bool} (hp : ∀ c, p c = true → isBlank c = true)
    {gap : List Char} (hgap : ∀ c ∈ gap, p c = true) :
    (gap ++ v.chars).dropWhile p = v.chars := by
  obtain ⟨c, cs, hv, hc⟩ := v.exists_cons
  have hnot : ¬ p c = true := by
    intro h
    rw [hp c h] at hc
    cases hc
  rw [List.dropWhile_append_of_pos hgap, hv, List.dropWhile_cons_of_neg hnot]

end Typed

/-! ## 2. The value position -/

/-- What follows the last occurrence of a character is determined. -/
theorem eq_of_append_cons_eq {c : Char} {a b a' b' : List Char} (h : a ++ c :: b = a' ++ c :: b')
    (hb : c ∉ b) (hb' : c ∉ b') : b = b' := by
  rcases List.append_eq_append_iff.mp h with ⟨x, -, hx⟩ | ⟨x, -, hx⟩
  · cases x with
    | nil => exact (List.cons.inj hx).2
    | cons d x => exact absurd (by simp [(List.cons.inj hx).2]) hb
  · cases x with
    | nil => exact (List.cons.inj hx).2.symm
    | cons d x => exact absurd (by simp [(List.cons.inj hx).2]) hb'

namespace TypedMember

variable {m : TypedMember}

/-- On the line of the colon the value position is found, unless an escape is cut off. -/
theorem isAfterColon_of_onLine (h : m.OnLine)
    (hpartial : isPartialValue m.value.chars = true) : isAfterColon m.text = true := by
  have hskip : (m.gap.chars ++ m.value.chars).dropWhile isIndent = m.value.chars :=
    m.value.dropWhile_append (fun _ hc => isBlank_of_isJsonBlank (isJsonBlank_of_isIndent hc)) h
  have hend : isAfterColon (':' :: (m.gap.chars ++ m.value.chars)) = true := by
    rw [Cursor.isAfterColon, endsInPartialValue, hskip, hpartial]
    simp
  have := isAfterColon_append hend m.upToColon
  simpa [text, MemberHead.text] using this

/-- In a bare word the value position is found on the line of the colon only, or the text is
misread. -/
theorem onLine_or_stale_of_word {head : MemberHead} {word : List Char} (hne : word ≠ [])
    (hbare : ∀ c ∈ word, isBareChar c = true)
    (hafter : isAfterColon (head.text ++ word) = true) :
    (∀ c ∈ head.gap.chars, isIndent c = true) ∨ Stale (head.text ++ word) := by
  have hclosed := head.closed_text.append (closed_of_isBareChar hbare)
  rw [isAfterColon, endsInColon_of_isBareChar hne hbare, Bool.false_or] at hafter
  refine (hclosed.of_endsInPartialValue hafter).imp_left ?_
  intro htypes
  obtain ⟨front, gap, word', hsplit, hgap, -, hword'⟩ := htypes.parts
  have hcolon : ∀ c, isBareChar c = true → c ≠ ':' := by
    rintro c hc rfl
    exact absurd hc (by decide)
  have hcolon' : ∀ c, isBare c = true → c ≠ ':' := by
    rintro c hc rfl
    exact absurd hc (by decide +kernel)
  -- The colon that the search has found is the last one, which is that of the member.
  have hrest : head.gap.chars ++ word = gap ++ word' := by
    have hjoin : head.text ++ word = head.upToColon ++ ':' :: (head.gap.chars ++ word) := by
      simp [MemberHead.text]
    refine eq_of_append_cons_eq (hjoin.symm.trans hsplit) ?_ ?_
    · intro hc
      rcases List.mem_append.mp hc with hc | hc
      · exact colon_not_mem_of_isBlank (forall_isBlank head.gap.blank) hc
      · exact hcolon _ (hbare _ hc) rfl
    · intro hc
      rcases List.mem_append.mp hc with hc | hc
      · exact absurd (hgap _ hc) (by decide)
      · exact hcolon' _ (List.all_eq_true.mp hword' _ hc) rfl
  -- No blank is part of a bare word, so all of the gap comes before the word that was found.
  intro c hc
  have hmem : c ∈ gap ++ word' := by
    rw [← hrest]
    exact List.mem_append_left _ hc
  rcases List.mem_append.mp hmem with hmem | hmem
  · exact hgap c hmem
  · have hbare' := List.all_eq_true.mp hword' c hmem
    rw [not_isBare_of_isJsonBlank (head.gap.blank c hc)] at hbare'
    cases hbare'

/-- In a literal, too. -/
theorem onLine_or_mimics_of_literal {head : MemberHead} {source rest : List Char}
    (hbody : Body (source ++ rest)) (hafter : isAfterColon (head.text ++ '"' :: source) = true) :
    (∀ c ∈ head.gap.chars, isIndent c = true) ∨ Mimics (head.text ++ '"' :: source) := by
  have hmimics : isAfterColon source = true → Mimics (head.text ++ '"' :: source) := by
    intro hsource
    exact ⟨head.text, source, rfl, head.closed_text, hbody.stays.of_append, hsource⟩
  rw [isAfterColon, Bool.or_eq_true, endsInColon_append_quote] at hafter
  rcases hafter with hcolon | hpartial
  · exact .inr (hmimics (by rw [isAfterColon, hcolon, Bool.true_or]))
  · rcases head.closed_text.endsInPartialValue_quote hpartial with
      hpartial | ⟨-, front, gap, hsplit, hgap⟩
    · exact .inr (hmimics (by rw [isAfterColon, hpartial, Bool.or_true]))
    · have hgap' : head.gap.chars = gap := by
        refine eq_of_append_cons_eq hsplit (colon_not_mem_of_isBlank (forall_isBlank head.gap.blank)) ?_
        intro hc
        exact absurd (hgap _ hc) (by decide)
      exact .inl (hgap' ▸ hgap)

theorem onLine_or_misread (h : isAfterColon m.text = true) : m.OnLine ∨ Misread m.text := by
  obtain ⟨head, value⟩ := m
  cases value with
  | word chars hne hbare => exact (onLine_or_stale_of_word hne hbare h).imp_right .inr
  | literal source rest hbody => exact (onLine_or_mimics_of_literal hbody h).imp_right .inl

end TypedMember

/-! ## 3. The property -/

namespace TypedMember

variable {m : TypedMember}

/-- The value is being typed behind the colon of the key. -/
theorem isColonAndPartialValue_tail (hpartial : isPartialValue m.value.chars = true) :
    isColonAndPartialValue m.tail = true := by
  have hskip : (m.gap.chars ++ m.value.chars).dropWhile isJsonBlank = m.value.chars :=
    m.value.dropWhile_append (fun _ => isBlank_of_isJsonBlank) m.gap.blank
  rw [isColonAndPartialValue, tail, List.dropWhile_append_of_pos (forall_isBlank m.mid.blank),
    List.dropWhile_cons_of_neg (by decide)]
  simp [hskip, hpartial]

/-- From the key on, the key is found. -/
theorem propertySource_key (hkey : m.key.text ≠ [])
    (hpartial : isPartialValue m.value.chars = true) :
    propertySource? ('"' :: (m.key.source ++ '"' :: m.tail)) = some m.key.source := by
  have hne := m.key.spelled.source_ne_nil hkey
  have hread := (body_of_spelled m.key.spelled).closedLiteral m.tail
  rw [propertySource?, if_pos rfl, keySource?, hread]
  simp [isColonAndPartialValue_tail hpartial, hne]

/-- Read from the quote that closes the key, the value is an open literal only if it is a bare word
on the line of the key. -/
theorem staysOpen_tail : staysOpen m.tail = true
    ↔ '"' ∉ m.value.chars ∧ '\n' ∉ m.mid.chars ++ m.gap.chars := by
  obtain ⟨head, value⟩ := m
  have hcolon : Closed (head.mid.chars ++ ':' :: head.gap.chars) :=
    (Quiet.colon head.mid.blank head.gap.blank).closed
  cases value with
  | word chars hne hbare =>
    have hclosed := hcolon.append (closed_of_isBareChar hbare)
    have hneutral : ∀ x, isBareChar x = false → x ∉ chars := by
      intro x hx hmem
      rw [hbare x hmem] at hx
      cases hx
    have hquote : '"' ∉ head.mid.chars ∧ '"' ∉ head.gap.chars := by
      constructor <;> intro hmem
      · exact absurd (head.mid.blank _ hmem) (by decide)
      · exact absurd (head.gap.blank _ hmem) (by decide)
    have := hclosed.staysOpen_iff
    simp only [List.append_assoc, List.cons_append] at this
    rw [tail, Typed.chars, this]
    simp [hquote, hneutral '"' (by decide), hneutral '\n' (by decide)]
  | literal source rest hbody =>
    have := hcolon.staysOpen_append source
    simp only [List.append_assoc, List.cons_append] at this
    simp [tail, Typed.chars, this]

/-- **Where the key reads as a colon, something else is taken for the property.** -/
theorem Borrows.propertyName {line : List Char} (h : m.Borrows line) :
    propertyName? m.text = some (String.ofList line) := by
  have hbody := body_of_spelled m.key.spelled
  have hkey : isColonAndPartialValue (m.key.source ++ '"' :: m.tail) = true :=
    (hbody.isColonAndPartialValue_iff _).mpr ⟨h.key, staysOpen_tail.mpr ⟨h.quote, h.lineFeed⟩⟩
  obtain ⟨_, _, -, -, -, hline⟩ := m.closed.exists_literal h.line
  have hback := hline.backslash_not_mem h.line.quote
  rw [propertyName?, text_eq_key, m.closed.propertySource_borrowed hbody hkey h.line,
    Option.map_some, decodeKey, if_neg hback]

/-- **Otherwise the key is the property.** -/
theorem propertyName (hkey : m.key.text ≠ []) (hpartial : isPartialValue m.value.chars = true)
    (hno : ∀ line, ¬ m.Borrows line) : propertyName? m.text = some m.name := by
  have hbody := body_of_spelled m.key.spelled
  have hearlier : isColonAndPartialValue (m.key.source ++ '"' :: m.tail) = true →
      ∀ line, ¬ EndsInLine m.before line := by
    intro hvalue line hline
    obtain ⟨hcolon, hopen⟩ := (hbody.isColonAndPartialValue_iff _).mp hvalue
    obtain ⟨hquote, hfeed⟩ := staysOpen_tail.mp hopen
    exact hno line ⟨hline, hcolon, hquote, hfeed⟩
  rw [propertyName?, text_eq_key, m.closed.propertySource hbody hearlier,
    propertySource_key hkey hpartial, Option.map_some, decodeKey_of_spelled m.key.spelled]
  rfl

end TypedMember

/-! ## 4. Where the text ends -/

namespace TypedMember

variable (m : TypedMember)

/-- Up to the value the text closes its literals, so only the value tells where it ends. -/
theorem after_text : Quote.outside.after m.text = Quote.outside.after m.value.chars := by
  rw [text, Quote.after_append, m.closed_text.after]

/-- An escape that is cut off in the value is cut off at the end of the text. -/
theorem cutOff_of_escaped (h : Quote.outside.after m.text = .escaped) : CutOff m.text := by
  rw [after_text] at h
  have hvalue := (m.value.partial_or_cutOff.resolve_left fun hopen => hopen.1 h).2
  exact m.closed_text.cutOff_append hvalue

/-- Otherwise a value is being typed. -/
theorem isPartialValue_of_not_escaped (h : Quote.outside.after m.text ≠ .escaped) :
    isPartialValue m.value.chars = true := by
  rw [after_text] at h
  exact (m.value.partial_or_cutOff.resolve_right fun hcut => h hcut.1).2

/-- **The value position is found on the line of the colon, or the text is misread.** -/
theorem isAfterColon_iff (h : Quote.outside.after m.text ≠ .escaped) :
    isAfterColon m.text = true ↔ m.OnLine ∨ Misread m.text := by
  constructor
  · exact onLine_or_misread
  · rintro (hline | hmisread)
    · exact isAfterColon_of_onLine hline (m.isPartialValue_of_not_escaped h)
    · exact hmisread.isAfterColon

end TypedMember

/-! ## 5. All cuts of all documents -/

/-- What the text before a stage looks like. -/
structure Heads (s : Stage) (before : List Char) : Prop where
  closed : Closed before
  /-- Before the value of a member come its key and its colon. -/
  head : s.phase = .value → ∀ key levels, s.levels = .object (some key) :: levels →
    ∃ h : MemberHead, h.text = before ∧ h.name = key

/-- In the value of a member the text ends with what was typed of it. -/
def Types (text : List Char) (p : Place) : Prop :=
  p.spot = .token → ∀ key levels, p.levels = .object (some key) :: levels →
    ∃ m : TypedMember, m.text = text ∧ m.name = key

/-- Between tokens nothing is typed. -/
theorem types_place (s : Stage) (text : List Char) : Types text s.place := by
  intro hspot
  obtain ⟨levels, phase⟩ := s
  match levels, phase with
  | [], _ | .array :: _, _ => cases hspot
  | .object _ :: _, .name | .object _ :: _, .value | .object _ :: _, .done => cases hspot

namespace Heads

variable {s s' : Stage} {before : List Char}

/-- Where no value of a member goes, nothing is asked of the last token. -/
theorem append (h : Heads s before) {token : List Char} (htoken : Closed token)
    (hs : s'.phase = .value → ∀ key levels, s'.levels ≠ .object (some key) :: levels) :
    Heads s' (before ++ token) :=
  ⟨h.closed.append htoken, fun hphase key levels hl => absurd hl (hs hphase key levels)⟩

/-- A blank. -/
theorem blank (h : Heads s before) {c : Char} (hc : isJsonBlank c = true) :
    Heads s (before ++ [c]) := by
  have hblank : ∀ x ∈ [c], isJsonBlank x = true := by simpa using hc
  refine ⟨h.closed.append (Quiet.blanks hblank).closed, ?_⟩
  intro hphase key levels hl
  obtain ⟨head, rfl, rfl⟩ := h.head hphase key levels hl
  have hgap : ∀ x ∈ head.gap.chars ++ [c], isJsonBlank x = true := by
    intro x hx
    exact (List.mem_append.mp hx).elim (head.gap.blank x) (hblank x)
  refine ⟨{ head with gap := ⟨_, hgap⟩ }, ?_, rfl⟩
  simp [MemberHead.text, MemberHead.upToColon]

end Heads

/-- A mark that opens, closes or separates. -/
theorem leads_mark_types {s s' : Stage} {c : Char} (hquote : c ≠ '"') (hback : c ≠ '\\')
    (hs : s'.phase = .value → ∀ key levels, s'.levels ≠ .object (some key) :: levels) :
    Leads Heads Types s [(c, s'.place)] s' := by
  intro before h
  exact ⟨⟨types_place s' _, trivial⟩, h.append (.plain hquote hback .nil) hs⟩

/-- A bare word. -/
theorem leads_bare_types (levels : List Level) (w : Bare) :
    Leads Heads Types ⟨levels, .value⟩ (Cuts.const w.chars ⟨levels, .token⟩) ⟨levels, .done⟩ := by
  intro before h
  constructor
  · apply holds_const
    intro u v hsplit hu _ key levels' hl
    obtain ⟨head, rfl, rfl⟩ := h.head rfl key levels' hl
    have hbare : ∀ c ∈ u, isBareChar c = true := by
      intro c hc
      exact w.isBareChar c (by simp [hsplit, hc])
    exact ⟨⟨head, .word u hu hbare⟩, rfl, rfl⟩
  · rw [Cuts.chars_const]
    exact h.append (closed_of_isBareChar w.isBareChar) (by simp)

/-- A string that is a value. -/
theorem leads_literal_types (levels : List Level) (q : Quotation) :
    Leads Heads Types ⟨levels, .value⟩ (q.cuts levels) ⟨levels, .done⟩ := by
  intro before h
  have hbody := body_of_spelled q.spelled
  have hinside : Holds Types before (Cuts.const ('"' :: q.source) ⟨levels, .token⟩) := by
    apply holds_const
    intro u v hsplit hu _ key levels' hl
    obtain ⟨source, rfl, hsource⟩ :=
      (List.cons_eq_append_iff.mp hsplit).resolve_left fun hnil => hu hnil.1
    obtain ⟨head, rfl, rfl⟩ := h.head rfl key levels' hl
    exact ⟨⟨head, .literal source v (hsource ▸ hbody)⟩, rfl, rfl⟩
  refine ⟨(holds_append _ _ _).mpr ⟨hinside, types_place _ _, trivial⟩, ?_⟩
  rw [Quotation.chars_cuts]
  exact h.append (.literal hbody .nil) (by simp)

/-- The key of a member and its colon. -/
theorem leads_head_types (levels : List Level) (l : Label) :
    Leads Heads Types ⟨.object none :: levels, .name⟩ (l.head levels)
      ⟨l.levels levels, .value⟩ := by
  intro before h
  have hinside : Holds Types before
      (Cuts.const (l.key.chars ++ l.mid.chars) ⟨.object none :: levels, .key⟩) := by
    apply holds_const
    intro u v _ _ hspot
    cases hspot
  let head : MemberHead :=
    { before, closed := h.closed, key := l.key, mid := l.mid, gap := .none }
  have htext : head.text = before ++ Cuts.chars (l.head levels) := by
    simp [head, MemberHead.text, MemberHead.upToColon, Blanks.none]
  refine ⟨(holds_append _ _ _).mpr ⟨hinside, types_place _ _, trivial⟩, ?_, ?_⟩
  · exact htext ▸ head.closed_text
  · intro _ key levels' hl
    obtain ⟨hlevel, -⟩ := List.cons.inj hl
    cases hlevel
    exact ⟨head, htext, rfl⟩

/-- Every kind of token keeps the invariant. -/
theorem sound_types : Sound Heads Types (fun _ => True) (fun _ => True) where
  blank s _ hc := fun _ h => ⟨⟨types_place s _, trivial⟩, h.blank hc⟩
  bare := leads_bare_types
  literal levels q _ := leads_literal_types levels q
  openArray _ := leads_mark_types (by decide) (by decide) (by simp)
  closeArray _ _ _ := leads_mark_types (by decide) (by decide) (by simp)
  openObject _ := leads_mark_types (by decide) (by decide) (by simp)
  closeObject _ _ _ _ := leads_mark_types (by decide) (by decide) (by simp)
  nextElement _ := leads_mark_types (by decide) (by decide) (by simp)
  nextMember _ _ := leads_mark_types (by decide) (by decide) (by simp)
  head levels l _ _ := leads_head_types levels l

/-- **In the value of a member the text ends with what was typed of it**, behind the key. -/
theorem types_at_cut (d : Document) : ∀ n ≤ d.text.length, Types (d.text.take n) (d.placeAt n) :=
  sound_types.document (by simp) (by simp) ⟨.nil, by simp⟩ (types_place _ _)

/-- **What the analyses answer while the value of a member is typed.**  Up to an escape that is cut
off they find the position on the line of the colon, and the key, unless a key that reads as a colon
borrows a property. -/
theorem answers_in_value {d : Document} {n : Nat} (hn : n ≤ d.text.length) {key : String}
    {levels : List Level} (hplace : d.placeAt n = ⟨.object (some key) :: levels, .token⟩)
    (hkey : key ≠ "") :
    ∃ m : TypedMember, m.text = d.text.take n ∧ m.name = key
      ∧ (Quote.outside.after (d.text.take n) = .escaped →
          isAfterColon (d.text.take n) = false ∧ propertyName? (d.text.take n) = none)
      ∧ (Quote.outside.after (d.text.take n) ≠ .escaped →
          (isAfterColon (d.text.take n) = true ↔ m.OnLine ∨ Misread (d.text.take n))
          ∧ (∀ line, m.Borrows line →
              propertyName? (d.text.take n) = some (String.ofList line))
          ∧ ((∀ line, ¬ m.Borrows line) → propertyName? (d.text.take n) = some key)) := by
  have htypes := types_at_cut d n hn
  rw [hplace] at htypes
  obtain ⟨m, htext, hname⟩ := htypes rfl key levels rfl
  have hne : m.key.text ≠ [] := by
    intro hnil
    apply hkey
    rw [← hname, MemberHead.name, hnil]
  refine ⟨m, htext, hname, ?_⟩
  rw [← htext]
  constructor
  · intro hafter
    have hcut := m.cutOff_of_escaped hafter
    exact ⟨hcut.isAfterColon, hcut.propertyName⟩
  · intro hafter
    have hpartial := m.isPartialValue_of_not_escaped hafter
    refine ⟨m.isAfterColon_iff hafter, fun line hborrows => hborrows.propertyName, ?_⟩
    intro hno
    rw [TypedMember.propertyName hne hpartial hno, hname]

/-- A value on the line after its colon, with an escape in it, and a key that is a colon. -/
def missed : Document where
  before := .none
  tree := .object (.cons
    { before := .none
      key := .ofText false ['a']
      mid := .none
      gap := ⟨['\n'], by simp [isJsonBlank]⟩ }
    (.literal (.ofText false ['b', '\n'])) .none
    (.last
      { before := .none
        key := .ofText false [':']
        mid := .none
        gap := .none }
      (.bare ⟨['5'], by decide⟩) .none))
  after := .none

example : missed.text = "\x7b\"a\":\n\"b\\n\",\":\":5\x7d".toList := by
  decide

/-- In the number another property is borrowed. -/
theorem answers_in_value_missed :
    17 ≤ missed.text.length ∧ missed.placeAt 17 = ⟨[.object (some ":")], .token⟩ ∧ ":" ≠ ""
      ∧ ∃ m : TypedMember, m.text = missed.text.take 17 ∧ m.name = ":"
          ∧ ∃ line, m.Borrows line := by
  have hn : 17 ≤ missed.text.length := by decide
  have hplace : missed.placeAt 17 = ⟨[.object (some ":")], .token⟩ := by decide
  have hkey : ":" ≠ "" := by decide
  obtain ⟨m, htext, hname, -, hopen⟩ := answers_in_value hn hplace hkey
  obtain ⟨-, -, hproperty⟩ := hopen (by decide)
  refine ⟨hn, hplace, hkey, m, htext, hname, ?_⟩
  -- The comma before the key is found, so the key is not.
  have hcomma : propertyName? (missed.text.take 17) = some "," := by decide +kernel
  by_contra hnot
  have hfound := hproperty (not_exists.mp hnot)
  rw [hcomma] at hfound
  exact absurd hfound (by decide)

/-- **Inside values the analyses miss**: on the line after the colon the position, behind a
backslash the property as well, and behind a key that is a colon the key. -/
theorem missed_in_value :
    missed.placeAt 8 = ⟨[.object (some "a")], .token⟩
      ∧ isAfterColon (missed.text.take 8) = false
      ∧ missed.placeAt 9 = ⟨[.object (some "a")], .token⟩
      ∧ propertyName? (missed.text.take 9) = none
      ∧ missed.placeAt 17 = ⟨[.object (some ":")], .token⟩
      ∧ propertyName? (missed.text.take 17) = some "," := by
  decide +kernel

end SchemaAssist.Cursor
