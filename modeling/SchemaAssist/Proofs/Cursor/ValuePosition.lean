/-
# Value positions and member positions

Between the tokens of a document the analyses of the end of the text agree with the grammar,
provided that keys are not empty and that no string literal ends with a colon and spaces:

* where the value of a member goes, the cursor is in value position and the property is the key of
  that member (`Awaits.isAfterColon`, `Awaits.propertyName`);
* where a member goes or has ended, the cursor is not in value position (`Rests.not_isAfterColon`).

Both are read off what the text before such a cut looks like, `Awaits` and `Rests`, which every
document has at its cuts (`position_at_cut`).
-/
import SchemaAssist.Proofs.Cursor.Quiet
import SchemaAssist.Proofs.Json.CutInduction

namespace SchemaAssist.Cursor

open SchemaAssist.Json SchemaAssist.Text

/-! ## 1. The end of a text -/

theorem trimEnd_concat (text : List Char) (c : Char) :
    trimEnd (text ++ [c]) = if isBlank c then trimEnd text else text ++ [c] := by
  by_cases h : isBlank c = true <;> simp [trimEnd, h]

theorem endsInColon_concat (text : List Char) (c : Char) :
    endsInColon (text ++ [c]) = if isBlank c then endsInColon text else c == ':' := by
  rw [endsInColon, trimEnd_concat]
  split
  · rfl
  · simp

/-- A bare word is no colon. -/
theorem endsInColon_of_isBareChar {before word : List Char} (hne : word ≠ [])
    (h : ∀ c ∈ word, isBareChar c = true) : endsInColon (before ++ word) = false := by
  rcases List.eq_nil_or_concat word with hnil | ⟨u, c, hu⟩
  · exact absurd hnil hne
  · rw [List.concat_eq_append] at hu
    have hc : isBareChar c = true := h c (by simp [hu])
    have hcolon : c ≠ ':' := by
      rintro rfl
      exact absurd hc (by decide)
    rw [hu, ← List.append_assoc, endsInColon_concat, not_isBlank_of_isBareChar hc]
    simpa using hcolon

/-- Blanks at the end are not seen. -/
theorem endsInColon_append_blanks (text : List Char) {gap : List Char}
    (h : ∀ c ∈ gap, isBlank c = true) : endsInColon (text ++ gap) = endsInColon text := by
  have : trimEnd (text ++ gap) = trimEnd text := by
    rw [trimEnd, List.reverse_append, List.dropWhile_append_of_pos (by simpa using h), trimEnd]
  rw [endsInColon, this, endsInColon]

/-- Blanks are no colons. -/
theorem colon_not_mem_of_isBlank {gap : List Char} (h : ∀ c ∈ gap, isBlank c = true) :
    ':' ∉ gap := by
  intro hmem
  have := h ':' hmem
  rw [isBlank_colon] at this
  cases this

/-- A colon is seen through blanks. -/
theorem endsInColon_of_colon (before : List Char) {gap : List Char}
    (h : ∀ c ∈ gap, isBlank c = true) : endsInColon (before ++ ':' :: gap) = true := by
  have hassoc : before ++ ':' :: gap = before ++ [':'] ++ gap := by simp
  rw [hassoc, endsInColon_append_blanks _ h, endsInColon_concat, isBlank_colon]
  rfl

/-- What is in value position stays there whatever stands before it. -/
theorem isAfterColon_append {text : List Char} (h : isAfterColon text = true)
    (before : List Char) : isAfterColon (before ++ text) = true := by
  simp only [isAfterColon, Bool.or_eq_true] at h ⊢
  rcases h with h | h
  · left
    cases hd : text.reverse.dropWhile isBlank with
    | nil => simp [endsInColon, trimEnd, hd] at h
    | cons c cs =>
      rw [endsInColon, trimEnd, hd] at h
      rw [endsInColon, trimEnd, List.reverse_append, List.dropWhile_append, hd]
      simpa using h
  · right
    induction before with
    | nil => exact h
    | cons c cs ih => rw [List.cons_append, endsInPartialValue, ih, Bool.or_true]

/-- Text without a colon is in no value position. -/
theorem not_isAfterColon_of_not_mem {text : List Char} (h : ':' ∉ text) :
    isAfterColon text = false := by
  have hpartial : endsInPartialValue text = false := by
    induction text with
    | nil => rfl
    | cons c cs ih =>
      simp only [List.mem_cons, not_or] at h
      have hc : (c == ':') = false := by simpa using fun hc => h.1 hc.symm
      rw [endsInPartialValue, hc, Bool.false_and, Bool.false_or, ih h.2]
  have hcolon : endsInColon text = false := by
    rw [endsInColon, beq_eq_false_iff_ne]
    intro hlast
    have hmem := List.mem_of_getLast? hlast
    rw [trimEnd, List.mem_reverse] at hmem
    have := (List.dropWhile_sublist _).mem hmem
    exact h (List.mem_reverse.mp this)
  rw [isAfterColon, hcolon, hpartial, Bool.false_or]

theorem endsPlain_concat {text : List Char} {c : Char} (h : isBare c = false) :
    EndsPlain (text ++ [c]) := by
  intro u x hx
  obtain ⟨-, hx⟩ := List.append_inj' hx rfl
  rw [← (List.cons.inj hx).1]
  exact h

/-! ## 2. Before a value -/

/-- The text ends with a key, its colon and blanks, after text that is quiet. -/
structure Awaits (key : String) (text : List Char) : Prop where
  parts : ∃ before source mid gap : List Char,
    text = before ++ '"' :: (source ++ '"' :: (mid ++ ':' :: gap))
      ∧ Quiet before ∧ Body source ∧ endsInColonAndSpaces source = false ∧ source ≠ []
      ∧ decodeKey source = key
      ∧ (∀ c ∈ mid, isJsonBlank c = true) ∧ (∀ c ∈ gap, isJsonBlank c = true)

namespace Awaits

variable {key : String} {text : List Char}

/-- A blank more changes nothing. -/
theorem concat (h : Awaits key text) {c : Char} (hc : isJsonBlank c = true) :
    Awaits key (text ++ [c]) := by
  obtain ⟨before, source, mid, gap, rfl, hq, hs, hcolon, hne, hkey, hmid, hgap⟩ := h.parts
  refine ⟨before, source, mid, gap ++ [c], by simp, hq, hs, hcolon, hne, hkey, hmid, ?_⟩
  intro x hx
  rcases List.mem_append.mp hx with hx | hx
  · exact hgap x hx
  · rw [List.mem_singleton.mp hx]
    exact hc

/-- The text ends with a colon and blanks. -/
theorem exists_colon (h : Awaits key text) :
    ∃ before gap : List Char, text = before ++ ':' :: gap ∧ ∀ c ∈ gap, isJsonBlank c = true := by
  obtain ⟨before, source, mid, gap, rfl, -, -, -, -, -, -, hgap⟩ := h.parts
  exact ⟨before ++ '"' :: (source ++ '"' :: mid), gap, by simp, hgap⟩

end Awaits

/-- A colon and blanks end a text in value position. -/
theorem isAfterColon_of_colon (before : List Char) {gap : List Char}
    (h : ∀ c ∈ gap, isJsonBlank c = true) : isAfterColon (before ++ ':' :: gap) = true := by
  rw [isAfterColon, endsInColon_of_colon before (forall_isBlank h), Bool.true_or]

namespace Awaits

variable {key : String} {text : List Char}

theorem isAfterColon (h : Awaits key text) : isAfterColon text = true := by
  obtain ⟨before, gap, rfl, hgap⟩ := h.exists_colon
  exact isAfterColon_of_colon before hgap

/-- The property is the key in front of the colon. -/
theorem propertyName (h : Awaits key text) : propertyName? text = some key := by
  obtain ⟨before, source, mid, gap, rfl, hq, hs, hcolon, hne, hkey, hmid, hgap⟩ := h.parts
  rw [propertyName?, hq.propertySource_eq hs hcolon hne hmid hgap, Option.map_some, hkey]

end Awaits

/-! ## 3. Between members -/

/-- The text ends between tokens, and neither in a colon nor in a bare word. -/
structure Rests (text : List Char) : Prop where
  quiet : Quiet text
  colon : endsInColon text = false
  plain : EndsPlain text

theorem Rests.not_isAfterColon {text : List Char} (h : Rests text) : isAfterColon text = false := by
  rw [Cursor.isAfterColon, h.colon, h.quiet.not_endsInPartialValue h.plain, Bool.false_or]

/-! ## 4. The position at a stage -/

/-- What the text before a stage looks like. -/
structure Settled (s : Stage) (before : List Char) : Prop where
  quiet : Quiet before
  /-- Only before a value may a colon come last. -/
  colon : s.phase ≠ .value → endsInColon before = false
  /-- Before the value of a member come its key and its colon. -/
  awaits : s.phase = .value → ∀ key levels, s.levels = .object key :: levels →
    ∃ name, key = some name ∧ Awaits name before

/-- What the text before a cut looks like, where a member goes or ended and where its value goes. -/
structure Positioned (text : List Char) (p : Place) : Prop where
  member : p.spot = .member → (∃ key levels, p.levels = .object key :: levels) ∧ Rests text
  value : p.spot = .value →
    ∃ key levels, p.levels = .object (some key) :: levels ∧ Awaits key text

/-- Inside tokens nothing is said. -/
theorem positioned_of_spot {text : List Char} {p : Place} (h : p.spot = .token ∨ p.spot = .key) :
    Positioned text p := by
  constructor <;> intro hp <;> simp [hp] at h

theorem Settled.positioned {s : Stage} {text : List Char} (h : Settled s text)
    (hplain : EndsPlain text) : Positioned text s.place := by
  obtain ⟨levels, phase⟩ := s
  constructor <;> intro hp
  · match levels, phase with
    | .object key :: levels, .name => exact ⟨⟨key, levels, rfl⟩, h.quiet, h.colon (by simp), hplain⟩
    | .object key :: levels, .done => exact ⟨⟨key, levels, rfl⟩, h.quiet, h.colon (by simp), hplain⟩
    | .object key :: levels, .value => simp [Stage.place] at hp
    | [], _ => simp [Stage.place] at hp
    | .array :: _, _ => simp [Stage.place] at hp
  · match levels, phase with
    | .object key :: levels, .value =>
      obtain ⟨name, rfl, hawaits⟩ := h.awaits rfl key levels rfl
      exact ⟨name, levels, rfl, hawaits⟩
    | .object _ :: _, .name => simp [Stage.place] at hp
    | .object _ :: _, .done => simp [Stage.place] at hp
    | [], _ => simp [Stage.place] at hp
    | .array :: _, _ => simp [Stage.place] at hp

/-- A token whose last character belongs to no bare word. -/
theorem leads_of_settled {s s' : Stage} {m : Cuts} {c : Char}
    (hm : ∀ x ∈ m, x.2.spot = .token ∨ x.2.spot = .key) (hc : isBare c = false)
    (h : ∀ before, Settled s before → Settled s' (before ++ (m.chars ++ [c]))) :
    Leads Settled Positioned s (m ++ [(c, s'.place)]) s' := by
  intro before hb
  have hsettled := h before hb
  have hplain : EndsPlain (before ++ (Cuts.chars m ++ [c])) := by
    rw [← List.append_assoc]
    exact endsPlain_concat hc
  have hinside : Holds Positioned before m := by
    apply holds_of_forall
    intro u x p v hsplit
    exact positioned_of_spot (hm (x, p) (by simp [hsplit]))
  refine ⟨(holds_append _ _ _).mpr ⟨hinside, ?_, trivial⟩, ?_⟩
  · simpa using hsettled.positioned hplain
  · simpa using hsettled

/-! ## 5. Token by token -/

/-- No range of blanks meets a range of letters and numbers. -/
theorem disjoint_blankRanges_wordRanges : ∀ s ∈ wordRanges, ∀ r ∈ blankRanges,
    r.2 < s.1 ∨ s.2 < r.1 := by
  have h : (wordRanges.all fun s => blankRanges.all fun r => Nat.blt r.2 s.1 || Nat.blt s.2 r.1)
      = true := by decide +kernel
  intro s hs r hr
  have hsr := List.all_eq_true.mp (List.all_eq_true.mp h s hs) r hr
  simpa using hsr

/-- No blank belongs to a bare word. -/
theorem not_isBare_of_isBlank {c : Char} (h : isBlank c = true) : isBare c = false := by
  have hascii : isBareChar c = false := by
    by_contra hbare
    rw [not_isBlank_of_isBareChar (Bool.not_eq_false _ ▸ hbare)] at h
    cases h
  have hline : c ≠ '_' := by
    rintro rfl
    cases h
  have hword : inRanges wordRanges c = false := by
    by_contra hword
    obtain ⟨r, hr, hc⟩ := List.any_eq_true.mp h
    obtain ⟨s, hs, hc'⟩ := List.any_eq_true.mp (Bool.not_eq_false _ ▸ hword)
    simp only [Bool.and_eq_true, decide_eq_true_eq] at hc hc'
    have := disjoint_blankRanges_wordRanges s hs r hr
    omega
  simp only [isBareChar, Bool.or_eq_false_iff] at hascii
  simp [isBare, isWord, hascii, hline, hword]

theorem not_isBare_of_isJsonBlank {c : Char} (h : isJsonBlank c = true) : isBare c = false :=
  not_isBare_of_isBlank (isBlank_of_isJsonBlank h)

/-- A blank. -/
theorem Settled.blank {s : Stage} {before : List Char} (h : Settled s before) {c : Char}
    (hc : isJsonBlank c = true) : Settled s (before ++ [c]) where
  quiet := h.quiet.append (.blanks (by simpa using hc))
  colon hs := by
    rw [endsInColon_concat, if_pos (isBlank_of_isJsonBlank hc)]
    exact h.colon hs
  awaits hs key levels hl := by
    obtain ⟨name, hname, hawaits⟩ := h.awaits hs key levels hl
    exact ⟨name, hname, hawaits.concat hc⟩

/-- A character that is no blank, no colon and no quote, between two stages. -/
theorem Settled.mark {s s' : Stage} {before : List Char} (h : Settled s before) {c : Char}
    (hc : c ∈ ['{', '}', '[', ']', ','])
    (hs : s'.phase = .value → ∀ key levels, s'.levels ≠ .object key :: levels) :
    Settled s' (before ++ [c]) := by
  have hc' : c ≠ '"' ∧ c ≠ '\\' ∧ isBlank c = false ∧ c ≠ ':' := by
    simp only [List.mem_cons, List.not_mem_nil, or_false] at hc
    rcases hc with rfl | rfl | rfl | rfl | rfl <;> decide
  obtain ⟨hq, hs', hb, hcolon⟩ := hc'
  refine ⟨h.quiet.append (.plain hq hs' .nil), ?_, ?_⟩
  · intro _
    rw [endsInColon_concat, hb]
    simpa using hcolon
  · intro hv key levels hl
    exact absurd hl (hs hv key levels)

/-- A mark that opens, closes or separates. -/
theorem leads_of_mark_settled {s s' : Stage} {c : Char} (hc : c ∈ ['{', '}', '[', ']', ','])
    (hs : s'.phase = .value → ∀ key levels, s'.levels ≠ .object key :: levels) :
    Leads Settled Positioned s [(c, s'.place)] s' := by
  have hbare : isBare c = false := by
    simp only [List.mem_cons, List.not_mem_nil, or_false] at hc
    rcases hc with rfl | rfl | rfl | rfl | rfl <;> decide +kernel
  apply leads_of_settled (m := []) (by simp) hbare
  intro before hb
  exact hb.mark hc hs

/-- A bare word. -/
theorem leads_bare_settled (levels : List Level) (w : Bare) :
    Leads Settled Positioned ⟨levels, .value⟩ (Cuts.const w.chars ⟨levels, .token⟩)
      ⟨levels, .done⟩ := by
  intro before hb
  have hinside : Holds Positioned before (Cuts.const w.chars ⟨levels, .token⟩) := by
    apply holds_const
    intro u v _ _
    exact positioned_of_spot (.inl rfl)
  have hplain : ∀ c ∈ w.chars, c ≠ '"' ∧ c ≠ '\\' := by
    intro c hc
    have := w.isBareChar c hc
    constructor <;> rintro rfl <;> exact absurd this (by decide)
  refine ⟨hinside, ?_⟩
  rw [Cuts.chars_const]
  refine ⟨hb.quiet.append (.of_forall hplain), ?_, ?_⟩
  · intro _
    exact endsInColon_of_isBareChar w.chars_ne_nil w.isBareChar
  · intro hv
    exact absurd hv (by simp)

/-- A string that is a value. -/
theorem leads_literal_settled (levels : List Level) {q : Quotation}
    (hq : endsInColonAndSpaces q.source = false) :
    Leads Settled Positioned ⟨levels, .value⟩ (q.cuts levels) ⟨levels, .done⟩ := by
  have hspots : ∀ x ∈ Cuts.const ('"' :: q.source) ⟨levels, .token⟩,
      x.2.spot = .token ∨ x.2.spot = .key := by
    intro x hx
    left
    rw [Cuts.snd_of_mem_const hx]
  apply leads_of_settled hspots isBare_quote
  intro before hb
  have hbody := body_of_spelled q.spelled
  rw [Cuts.chars_const]
  refine ⟨hb.quiet.append (by simpa using Quiet.literal hbody hq .nil), ?_, ?_⟩
  · intro _
    rw [← List.append_assoc, endsInColon_concat]
    rfl
  · intro hv
    exact absurd hv (by simp)

/-- The key of a member and its colon. -/
theorem leads_head_settled (levels : List Level) {l : Label} (hkey : l.key.text ≠ [])
    (hq : endsInColonAndSpaces l.key.source = false) :
    Leads Settled Positioned ⟨.object none :: levels, .name⟩ (l.head levels)
      ⟨l.levels levels, .value⟩ := by
  have hspots : ∀ x ∈ Cuts.const (l.key.chars ++ l.mid.chars) ⟨.object none :: levels, .key⟩,
      x.2.spot = .token ∨ x.2.spot = .key := by
    intro x hx
    right
    rw [Cuts.snd_of_mem_const hx]
  apply leads_of_settled hspots (by decide +kernel)
  intro before hb
  have hbody := body_of_spelled l.key.spelled
  have hawaits : Awaits (String.ofList l.key.text)
      (before ++ (Cuts.chars (Cuts.const (l.key.chars ++ l.mid.chars)
        ⟨.object none :: levels, .key⟩) ++ [':'])) :=
    ⟨before, l.key.source, l.mid.chars, [], by simp [Quotation.chars], hb.quiet, hbody, hq,
      l.key.spelled.source_ne_nil hkey, decodeKey_of_spelled l.key.spelled, l.mid.blank, by simp⟩
  have hcolon : Quiet (l.mid.chars ++ [':']) := .colon l.mid.blank (by simp)
  refine ⟨hb.quiet.append ?_, ?_, ?_⟩
  · simpa [Quotation.chars] using Quiet.literal hbody hq hcolon
  · intro hv
    exact absurd rfl hv
  · intro _ key levels' hl
    obtain ⟨hlevel, -⟩ := List.cons.inj hl
    cases hlevel
    exact ⟨_, rfl, hawaits⟩

/-! ## 6. All cuts of all documents -/

/-- The analyses read every kind of token rightly. -/
theorem sound_position :
    Sound Settled Positioned (fun l => l.key.text ≠ [])
      (fun q => endsInColonAndSpaces q.source = false) where
  blank _ _ hc := leads_of_settled (m := []) (by simp) (not_isBare_of_isJsonBlank hc)
    fun before hb => hb.blank hc
  bare := leads_bare_settled
  literal levels _ hq := leads_literal_settled levels hq
  openArray _ := leads_of_mark_settled (by decide) (by simp)
  closeArray _ _ _ := leads_of_mark_settled (by decide) (by simp)
  openObject _ := leads_of_mark_settled (by decide) (by simp)
  closeObject _ _ _ _ := leads_of_mark_settled (by decide) (by simp)
  nextElement _ := leads_of_mark_settled (by decide) (by simp)
  nextMember _ _ := leads_of_mark_settled (by decide) (by simp)
  head levels _ hl hq := leads_head_settled levels hl hq

/-- **At every cut where a member goes or ended the text is at rest, and where the value of a member
goes it ends with the key of that member.** -/
theorem position_at_cut {d : Document} (hl : ∀ l ∈ d.labels, l.key.text ≠ [])
    (hq : ∀ q ∈ d.quotations, endsInColonAndSpaces q.source = false) :
    ∀ n ≤ d.text.length, Positioned (d.text.take n) (d.placeAt n) :=
  sound_position.document hl hq ⟨.nil, fun h => absurd rfl h, by simp⟩
    (by constructor <;> intro h <;> simp [Stage.place] at h)

end SchemaAssist.Cursor
