/-
# The inside of a literal, as the analyses of the text before the cursor see it

The analyses of the text before the cursor take a literal apart into backslashes with the character
after them, and other characters.  `Body` is that coarser grammar.  Every spelling of a text has it
(`body_of_spelled`), and it is enough to see where a literal ends.
-/
import Mathlib.Data.List.TakeWhile
import SchemaAssist.Cursor.KeyPath
import SchemaAssist.Cursor.ValuePosition
import SchemaAssist.Proofs.Json.Tree

namespace SchemaAssist.Cursor

open SchemaAssist.Json SchemaAssist.Text

/-! ## 1. The grammar -/

/-- The inside of a literal. -/
inductive Body : List Char → Prop where
  | nil : Body []
  | plain {c : Char} {cs : List Char} : c ≠ '"' → c ≠ '\\' → 0x20 ≤ c.toNat → Body cs →
      Body (c :: cs)
  | escape {c : Char} {cs : List Char} : 0x20 ≤ c.toNat → Body cs → Body ('\\' :: c :: cs)

/-- The letters of escapes are no controls. -/
theorem le_of_escapeLetter {l c : Char} (h : escapeLetter? l = some c) : 0x20 ≤ l.toNat := by
  simp only [escapeLetter?] at h
  split at h
  · rename_i hl
    rcases hl with rfl | rfl | rfl <;> decide
  repeat' split at h
  all_goals first
    | (rename_i hl; rw [hl]; decide)
    | simp at h

/-- Four hexadecimal digits in front of a body. -/
theorem Body.digits {a b c d : Char} {n : Nat} {cs : List Char}
    (h : hexValue4? a b c d = some n) (hcs : Body cs) : Body (a :: b :: c :: d :: cs) := by
  have hplain := plain_of_hexValue4 h
  obtain ⟨ha, ha', ha''⟩ := hplain a (by simp)
  obtain ⟨hb, hb', hb''⟩ := hplain b (by simp)
  obtain ⟨hc, hc', hc''⟩ := hplain c (by simp)
  obtain ⟨hd, hd', hd''⟩ := hplain d (by simp)
  exact .plain ha ha' ha'' (.plain hb hb' hb'' (.plain hc hc' hc'' (.plain hd hd' hd'' hcs)))

/-- **Every spelling of a text is a body.** -/
theorem body_of_spelled {source text : List Char} (h : Spelled source text) : Body source := by
  induction h with
  | nil => exact .nil
  | plain hq hb hctl _ ih => exact .plain hq hb hctl ih
  | letter hl _ ih => exact .escape (le_of_escapeLetter hl) ih
  | unit hn _ _ ih => exact .escape (by decide) (ih.digits hn)
  | pair hh hl _ _ ih => exact .escape (by decide) (.digits hh (.escape (by decide) (ih.digits hl)))

/-- Without backslashes a source is the text it stands for. -/
theorem eq_of_spelled {source text : List Char} (h : Spelled source text) (hb : '\\' ∉ source) :
    text = source := by
  induction h with
  | nil => rfl
  | plain _ _ _ _ ih => rw [ih fun hm => hb (by simp [hm])]
  | letter | unit | pair => simp at hb

/-- The key that a source is decoded to is the text it spells. -/
theorem decodeKey_of_spelled {source text : List Char} (h : Spelled source text) :
    decodeKey source = String.ofList text := by
  unfold decodeKey
  split
  · rw [unescape_of_spelled h, Option.getD_some]
  · rename_i hb
    rw [eq_of_spelled h hb]

/-! ## 2. Where a literal is open -/

namespace Quote

/-- From a state on, a literal is open all along a text. -/
def Stays : Quote → List Char → Prop
  | q, [] => q ≠ .outside
  | q, c :: cs => q ≠ .outside ∧ Stays (q.step c) cs

theorem Stays.ne_outside {q : Quote} {cs : List Char} (h : q.Stays cs) : q ≠ .outside := by
  cases cs with
  | nil => exact h
  | cons c cs => exact h.1

/-- A literal that is open all along a text is open all along its beginning. -/
theorem Stays.of_append {q : Quote} : ∀ {u v : List Char}, q.Stays (u ++ v) → q.Stays u
  | [], _, h => h.ne_outside
  | _ :: _, _, h => ⟨h.1, Stays.of_append h.2⟩

end Quote

/-- The inside of a literal leaves the literal open all along. -/
theorem Body.stays {source : List Char} (h : Body source) : Quote.inside.Stays source := by
  induction h with
  | nil => simp [Quote.Stays]
  | plain hq hb _ _ ih => simpa [Quote.Stays, Quote.step, hq, hb] using ih
  | escape _ _ ih => simpa [Quote.Stays, Quote.step] using ih

theorem Body.after {source : List Char} (h : Body source) :
    Quote.inside.after source = .inside := by
  induction h with
  | nil => rfl
  | plain hq hb _ _ ih => simpa [Quote.step, hq, hb] using ih
  | escape _ _ ih => simpa [Quote.step] using ih

/-! ## 3. Characters outside literals -/

/-- A character that means nothing outside literals but itself: no quote, and no mark that opens,
closes or separates. -/
def IsNeutral (c : Char) : Prop :=
  c ∉ ['"', '{', '[', '}', ']', ',']

instance (c : Char) : Decidable (IsNeutral c) := inferInstanceAs (Decidable (_ ∉ _))

theorem isNeutral_of_isBareChar {c : Char} (h : isBareChar c = true) : IsNeutral c := by
  intro hc
  simp only [List.mem_cons, List.not_mem_nil, or_false] at hc
  rcases hc with rfl | rfl | rfl | rfl | rfl | rfl <;> exact absurd h (by decide)

theorem isNeutral_of_isBlank {c : Char} (h : isBlank c = true) : IsNeutral c := by
  intro hc
  simp only [List.mem_cons, List.not_mem_nil, or_false] at hc
  rcases hc with rfl | rfl | rfl | rfl | rfl | rfl <;> exact absurd h (by decide)

theorem isNeutral_of_isJsonBlank {c : Char} (h : isJsonBlank c = true) : IsNeutral c :=
  isNeutral_of_isBlank (isBlank_of_isJsonBlank h)

/-- The characters of bare words lie between the plus sign and the last letter. -/
theorem bounds_of_isBareChar {c : Char} (h : isBareChar c = true) :
    0x2b ≤ c.toNat ∧ c.toNat ≤ 0x7a := by
  simp only [isBareChar, Bool.or_eq_true, beq_iff_eq] at h
  rcases h with ((rfl | rfl) | rfl) | h
  · decide
  · decide
  · decide
  · have := bounds_of_isAlphanum h
    omega

/-- Bare words hold no blanks. -/
theorem not_isBlank_of_isBareChar {c : Char} (h : isBareChar c = true) : isBlank c = false := by
  obtain ⟨hlow, hhigh⟩ := bounds_of_isBareChar h
  simp only [isBlank, inRanges, blankRanges, List.any_cons, List.any_nil, Bool.or_false,
    Bool.or_eq_false_iff, Bool.and_eq_false_iff, decide_eq_false_iff_not]
  omega

theorem IsNeutral.ne_quote {c : Char} (h : IsNeutral c) : c ≠ '"' := by
  rintro rfl
  exact h (by simp)

/-- Outside literals such characters stay outside. -/
theorem Quote.after_neutral : ∀ {cs : List Char}, (∀ c ∈ cs, IsNeutral c) →
    Quote.outside.after cs = .outside
  | [], _ => rfl
  | c :: cs, h => by
    have hc : c ≠ '"' := (h c List.mem_cons_self).ne_quote
    have hcs : Quote.outside.after cs = .outside := by
      apply after_neutral
      intro x hx
      exact h x (List.mem_cons_of_mem c hx)
    simpa [Quote.step, hc] using hcs

/-! ## 4. What follows the blanks in a literal -/

/-- Whether the inside of a literal ends with a colon and any number of spaces. -/
def endsInColonAndSpaces : List Char → Bool
  | [] => false
  | c :: cs => (c == ':' && cs.all (· == ' ')) || endsInColonAndSpaces cs

theorem endsInColonAndSpaces_of_cons {c : Char} {cs : List Char}
    (h : endsInColonAndSpaces (c :: cs) = false) : endsInColonAndSpaces cs = false := by
  simp only [endsInColonAndSpaces, Bool.or_eq_false_iff] at h
  exact h.2

theorem endsInColonAndSpaces_of_append {v : List Char} : ∀ {u : List Char},
    endsInColonAndSpaces (u ++ v) = false → endsInColonAndSpaces v = false
  | [], h => h
  | _ :: _, h => endsInColonAndSpaces_of_append (endsInColonAndSpaces_of_cons h)

/-- The only blank inside a literal is the space. -/
theorem eq_space_of_isJsonBlank {c : Char} (h : isJsonBlank c = true) (hc : 0x20 ≤ c.toNat) :
    c = ' ' := by
  simp only [isJsonBlank, Bool.or_eq_true, beq_iff_eq] at h
  rcases h with ((rfl | rfl) | rfl) | rfl
  · rfl
  all_goals exact absurd hc (by decide)

theorem Body.head_ne {c : Char} {cs : List Char} (h : Body (c :: cs)) : c ≠ '"' := by
  cases h with
  | plain hq => exact hq
  | escape => decide

/-- Where blanks are skipped, a body is left: a blank follows no backslash of its own. -/
theorem Body.dropWhile {p : Char → Bool} (hp : p '\\' = false) {source : List Char}
    (h : Body source) : Body (source.dropWhile p) := by
  induction h with
  | nil => exact .nil
  | @plain c cs hq hb hctl hcs ih =>
    rw [List.dropWhile_cons]
    split
    · exact ih
    · exact .plain hq hb hctl hcs
  | escape hctl hcs _ => simpa [List.dropWhile_cons, hp] using Body.escape hctl hcs

/-- A body that holds nothing but blanks holds nothing but spaces. -/
theorem Body.all_space {source : List Char} (h : Body source)
    (hblank : ∀ c ∈ source, isJsonBlank c = true) : source.all (· == ' ') = true := by
  induction h with
  | nil => rfl
  | plain _ _ hctl _ ih =>
    simp only [List.forall_mem_cons] at hblank
    simp [eq_space_of_isJsonBlank hblank.1 hctl, ih hblank.2]
  | escape => exact absurd (hblank '\\' (by simp)) (by decide)

/-- Spaces before a quote are skipped where blanks are. -/
theorem dropWhile_spaces_quote {p : Char → Bool} (hspace : p ' ' = true) (hquote : p '"' = false)
    {cs : List Char} (h : cs.all (· == ' ') = true) (rest : List Char) :
    (cs ++ '"' :: rest).dropWhile p = '"' :: rest := by
  have hskip : ∀ c ∈ cs, p c = true := by
    intro c hc
    have hc : c = ' ' := by simpa using List.all_eq_true.mp h c hc
    rw [hc, hspace]
  rw [List.dropWhile_append_of_pos hskip, List.dropWhile_cons_of_neg (by simp [hquote])]

theorem isBare_quote : isBare '"' = false := by decide +kernel

/-- A text with a quote that is not its first character is no value that is being typed. -/
theorem isPartialValue_of_quote {c : Char} {cs : List Char} (hc : c ≠ '"') (h : '"' ∈ cs) :
    isPartialValue (c :: cs) = false := by
  have : (c :: cs).all isBare = false :=
    List.all_eq_false.mpr ⟨'"', by simp [h], by simp [isBare_quote]⟩
  simpa [isPartialValue, hc] using this

/-- What stands in a literal after blanks, with the closing quote, is no value that is being typed,
unless the literal ends with these blanks. -/
theorem Body.not_partial {p : Char → Bool} (hp : ∀ c, p c = true → isJsonBlank c = true)
    {source : List Char} (h : Body source) (hspace : source.all (· == ' ') = false)
    (rest : List Char) :
    ∃ c cs, (source ++ '"' :: rest).dropWhile p = c :: cs ∧ isPartialValue (c :: cs) = false := by
  have hback : p '\\' = false := by
    rw [Bool.eq_false_iff]
    intro hp'
    exact absurd (hp _ hp') (by decide)
  have hbody := h.dropWhile hback
  rw [List.dropWhile_append]
  cases hd : source.dropWhile p with
  | nil =>
    have hblank : ∀ c ∈ source, isJsonBlank c = true := by
      intro c hc
      exact hp c (List.dropWhile_eq_nil_iff.mp hd c hc)
    have hall := h.all_space hblank
    rw [hspace] at hall
    exact absurd hall (by decide)
  | cons c cs =>
    rw [hd] at hbody
    refine ⟨c, cs ++ '"' :: rest, by simp, ?_⟩
    exact isPartialValue_of_quote hbody.head_ne (by simp)

theorem staysOpen_cons {c : Char} (hback : c ≠ '\\') (cs : List Char) :
    staysOpen (c :: cs) = (c != '"' && c != '\n' && staysOpen cs) := by
  rw [staysOpen.eq_def]
  split
  · simp_all
  · simp_all
  · simp_all
  · rename_i heq
    obtain ⟨rfl, rfl⟩ := List.cons.inj heq
    rfl

theorem closedLiteral_cons {c : Char} (hback : c ≠ '\\') (cs : List Char) :
    closedLiteral? (c :: cs) =
      if c = '"' then some ([], cs)
      else if c = '\n' then none
      else (closedLiteral? cs).map fun (source, rest) => (c :: source, rest) := by
  rw [closedLiteral?.eq_def]
  split
  · simp_all
  · simp_all
  · simp_all
  · rename_i heq
    obtain ⟨rfl, rfl⟩ := List.cons.inj heq
    rfl

/-- A character that is no control is no line feed. -/
theorem ne_lineFeed_of_le {c : Char} (h : 0x20 ≤ c.toNat) : c ≠ '\n' := by
  rintro rfl
  exact absurd h (by decide)

/-- A literal that is closed is not open. -/
theorem Body.staysOpen {source : List Char} (h : Body source) (rest : List Char) :
    staysOpen (source ++ '"' :: rest) = false := by
  induction h with
  | nil => simp [Cursor.staysOpen]
  | plain _ hback _ _ ih => rw [List.cons_append, staysOpen_cons hback, ih, Bool.and_false]
  | escape _ _ ih => simp [Cursor.staysOpen, ih]

/-- A literal is found with its source and what follows it. -/
theorem Body.closedLiteral {source : List Char} (h : Body source) (rest : List Char) :
    closedLiteral? (source ++ '"' :: rest) = some (source, rest) := by
  induction h with
  | nil => simp [closedLiteral?]
  | plain hquote hback hctl _ ih =>
    have hline := ne_lineFeed_of_le hctl
    rw [List.cons_append, closedLiteral_cons hback, if_neg hquote, if_neg hline, ih]
    rfl
  | escape hctl _ ih => simp [closedLiteral?, ne_lineFeed_of_le hctl, ih]

end SchemaAssist.Cursor
