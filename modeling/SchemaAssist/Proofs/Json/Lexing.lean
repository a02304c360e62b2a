/-
# Texts and their tokens

What the cutter of tokens does with a text, piece by piece and as a whole:

* blanks, marks, literals and words in front of a text give the tokens that they are, then those of
  the text (`tokens_blanks`, `tokens_mark`, `tokens_literal`, `tokens_word`); a word has to end
  where it ends (`EndsWord`);
* every text that is cut into tokens is those tokens with blanks between them (`laid_of_tokens`).
-/
import SchemaAssist.Proofs.Json.Tree

namespace SchemaAssist.Json

open SchemaAssist.Text

/-! ## 1. From pieces to tokens -/

/-- A text that does not go on with a word. -/
def EndsWord (rest : List Char) : Prop :=
  ∀ c ∈ rest.head?, isWordPart c = false

@[simp] theorem endsWord_nil : EndsWord [] := by
  simp [EndsWord]

@[simp] theorem endsWord_cons {c : Char} {cs : List Char} :
    EndsWord (c :: cs) ↔ isWordPart c = false := by
  simp [EndsWord]

theorem EndsWord.blanks {rest : List Char} (h : EndsWord rest) (b : Blanks) :
    EndsWord (b.chars ++ rest) := by
  obtain ⟨chars, hblank⟩ := b
  cases chars with
  | nil => exact h
  | cons c cs => simp [isWordPart, hblank c (by simp)]

/-- Blanks are dropped. -/
theorem tokens_blanks (b : Blanks) (rest : List Char) : tokens (b.chars ++ rest) = tokens rest := by
  obtain ⟨chars, hblank⟩ := b
  induction chars with
  | nil => rfl
  | cons c cs ih =>
    rw [List.cons_append, tokens_cons_of_isJsonBlank (hblank c List.mem_cons_self)]
    apply ih
    intro x hx
    exact hblank x (List.mem_cons_of_mem c hx)

theorem tokens_mark {c : Char} {mark : Token} (hmark : Token.ofMark? c = some mark)
    {rest : List Char} {ts : List Token} (h : tokens rest = some ts) :
    tokens (c :: rest) = some (mark :: ts) := by
  rw [tokens_cons_of_mark hmark, h]
  rfl

/-- Characters that mean nothing inside a literal are passed over. -/
theorem tokensFrom_plain (seen rest : List Char) : ∀ {cs : List Char},
    (∀ c ∈ cs, c ≠ '"' ∧ c ≠ '\\') →
    tokensFrom (.literal seen) (cs ++ rest) = tokensFrom (.literal (cs.reverse ++ seen)) rest
  | [], _ => rfl
  | c :: cs, h => by
    obtain ⟨hquote, hback⟩ := h c List.mem_cons_self
    have hcs : ∀ x ∈ cs, x ≠ '"' ∧ x ≠ '\\' := by
      intro x hx
      exact h x (List.mem_cons_of_mem c hx)
    have hstep : Lexing.step (.literal seen) c = ([], .literal (c :: seen)) := by
      simp [Lexing.step, hquote, hback]
    rw [List.cons_append, tokensFrom_cons, hstep, tokensFrom_plain (c :: seen) rest hcs]
    simp

/-- An escape is passed over, whatever its second character. -/
theorem tokensFrom_escape (seen : List Char) (c : Char) (rest : List Char) :
    tokensFrom (.literal seen) ('\\' :: c :: rest)
      = tokensFrom (.literal (c :: '\\' :: seen)) rest := by
  simp [tokensFrom_cons, Lexing.step]

/-- The four digits of an escape. -/
theorem tokensFrom_digits {a b c d : Char} {n : Nat} (h : hexValue4? a b c d = some n)
    (seen rest : List Char) :
    tokensFrom (.literal seen) (a :: b :: c :: d :: rest)
      = tokensFrom (.literal (d :: c :: b :: a :: seen)) rest := by
  have hplain : ∀ x ∈ [a, b, c, d], x ≠ '"' ∧ x ≠ '\\' := by
    intro x hx
    obtain ⟨hquote, hback, -⟩ := plain_of_hexValue4 h x hx
    exact ⟨hquote, hback⟩
  exact tokensFrom_plain seen rest hplain

/-- The inside of a literal is passed over. -/
theorem tokensFrom_source {source text : List Char} (h : Spelled source text) :
    ∀ seen rest : List Char, tokensFrom (.literal seen) (source ++ rest)
      = tokensFrom (.literal (source.reverse ++ seen)) rest := by
  induction h with
  | nil => intro seen rest; rfl
  | @plain c source _ hquote hback _ _ ih =>
    intro seen rest
    have hplain : ∀ x ∈ [c], x ≠ '"' ∧ x ≠ '\\' := by simp [hquote, hback]
    have hc := tokensFrom_plain seen (source ++ rest) hplain
    rw [List.singleton_append] at hc
    rw [List.cons_append, hc, ih]
    simp
  | letter _ _ ih =>
    intro seen rest
    rw [List.cons_append, List.cons_append, tokensFrom_escape, ih]
    simp
  | unit hn _ _ ih =>
    intro seen rest
    simp only [List.cons_append]
    rw [tokensFrom_escape, tokensFrom_digits hn, ih]
    simp
  | pair hhigh hlow _ _ ih =>
    intro seen rest
    simp only [List.cons_append]
    rw [tokensFrom_escape, tokensFrom_digits hhigh, tokensFrom_escape, tokensFrom_digits hlow, ih]
    simp

theorem tokens_literal (q : Quotation) {rest : List Char} {ts : List Token}
    (h : tokens rest = some ts) : tokens (q.chars ++ rest) = some (.literal q.source :: ts) := by
  have hopen : Lexing.between.step '"' = ([], .literal []) := rfl
  have hclose : (Lexing.literal q.source.reverse).step '"' = ([.literal q.source], .between) := by
    simp [Lexing.step]
  have hsource := tokensFrom_source q.spelled [] ('"' :: rest)
  rw [List.append_nil, tokensFrom_cons, hclose] at hsource
  have hchars : q.chars ++ rest = '"' :: (q.source ++ '"' :: rest) := by
    simp [Quotation.chars]
  rw [hchars, tokens, tokensFrom_cons, hopen, hsource]
  rw [tokens] at h
  simp [h]

theorem isWordPart_iff {c : Char} :
    isWordPart c = true ↔ isJsonBlank c = false ∧ c ≠ '"' ∧ Token.ofMark? c = none := by
  simp [isWordPart, and_assoc]

/-- What a character outside words does after a word is what it does between tokens. -/
theorem Lexing.step_word {c : Char} (hc : isWordPart c = false) (seen : List Char) :
    (Lexing.word seen).step c
      = (.word seen.reverse :: (Lexing.between.step c).1, (Lexing.between.step c).2) := by
  simp only [Lexing.step, Lexing.outside, Lexing.finished]
  split
  · rfl
  · split
    · rfl
    · split
      · rfl
      · simp_all [isWordPart]

theorem tokensFrom_word {rest : List Char} (hrest : EndsWord rest) {ts : List Token}
    (h : tokens rest = some ts) : ∀ {cs : List Char} (seen : List Char),
    (∀ c ∈ cs, isWordPart c = true) →
      tokensFrom (.word seen) (cs ++ rest) = some (.word (seen.reverse ++ cs) :: ts)
  | [], seen, _ => by
    rw [tokens] at h
    rw [List.nil_append, List.append_nil]
    cases rest with
    | nil =>
      simp only [tokensFrom, Lexing.finished, Option.some.injEq] at h ⊢
      rw [← h]
    | cons c cs =>
      rw [tokensFrom_cons] at h
      rw [tokensFrom_cons, Lexing.step_word (endsWord_cons.mp hrest)]
      obtain ⟨ts', hts', rfl⟩ := Option.map_eq_some_iff.mp h
      simp [hts']
  | c :: cs, seen, hcs => by
    obtain ⟨hblank, hquote, hmark⟩ := isWordPart_iff.mp (hcs c List.mem_cons_self)
    have hstep : (Lexing.word seen).step c = ([], .word (c :: seen)) := by
      simp [Lexing.step, Lexing.outside, hblank, hquote, hmark]
    have htail : ∀ x ∈ cs, isWordPart x = true := by
      intro x hx
      exact hcs x (List.mem_cons_of_mem c hx)
    rw [List.cons_append, tokensFrom_cons, hstep, tokensFrom_word hrest h (c :: seen) htail]
    simp

/-- The characters of bare words are parts of words. -/
theorem isWordPart_of_isBareChar {c : Char} (h : isBareChar c = true) : isWordPart c = true := by
  have hne : ∀ x, isBareChar x = false → c ≠ x := by
    rintro x hx rfl
    rw [h] at hx
    exact absurd hx (by decide)
  have hblank : isJsonBlank c = false := by
    simp [isJsonBlank, hne ' ' (by decide), hne '\t' (by decide), hne '\n' (by decide),
      hne '\r' (by decide)]
  have hmark : Token.ofMark? c = none := by
    simp [Token.ofMark?, hne '{' (by decide), hne '}' (by decide), hne '[' (by decide),
      hne ']' (by decide), hne ',' (by decide), hne ':' (by decide)]
  exact isWordPart_iff.mpr ⟨hblank, hne '"' (by decide), hmark⟩

theorem tokens_word (w : Bare) {rest : List Char} (hrest : EndsWord rest) {ts : List Token}
    (h : tokens rest = some ts) : tokens (w.chars ++ rest) = some (.word w.chars :: ts) := by
  have hparts : ∀ c ∈ w.chars, isWordPart c = true := by
    intro c hc
    exact isWordPart_of_isBareChar (w.isBareChar c hc)
  obtain ⟨c, cs, hcs⟩ := List.exists_cons_of_ne_nil w.chars_ne_nil
  rw [hcs] at hparts ⊢
  obtain ⟨hblank, hquote, hmark⟩ := isWordPart_iff.mp (hparts c List.mem_cons_self)
  have hstep : Lexing.between.step c = ([], .word [c]) := by
    simp [Lexing.step, Lexing.outside, hblank, hquote, hmark]
  have htail : ∀ x ∈ cs, isWordPart x = true := by
    intro x hx
    exact hparts x (List.mem_cons_of_mem c hx)
  rw [List.cons_append, tokens, tokensFrom_cons, hstep, tokensFrom_word hrest h [c] htail]
  rfl

/-! ## 2. From a text to pieces -/

/-- The characters of a token. -/
def Token.chars : Token → List Char
  | .openObject => ['{']
  | .closeObject => ['}']
  | .openArray => ['[']
  | .closeArray => [']']
  | .comma => [',']
  | .colon => [':']
  | .literal source => '"' :: (source ++ ['"'])
  | .word chars => chars

/-- A text is some tokens with blanks between them. -/
inductive Laid : List Token → List Char → Prop where
  | nil : Laid [] []
  | blank {c : Char} {ts : List Token} {text : List Char} : isJsonBlank c = true →
      Laid ts text → Laid ts (c :: text)
  | token {ts : List Token} {text : List Char} (t : Token) :
      Laid ts text → Laid (t :: ts) (t.chars ++ text)

/-- What was read of a token that is open. -/
def Lexing.chars : Lexing → List Char
  | .between => []
  | .word seen => seen.reverse
  | .literal seen => '"' :: seen.reverse
  | .escape seen => '"' :: seen.reverse

theorem chars_of_ofMark {c : Char} {mark : Token} (h : Token.ofMark? c = some mark) :
    mark.chars = [c] := by
  simp only [Token.ofMark?] at h
  repeat' split at h
  all_goals first
    | (subst_vars; obtain rfl := Option.some.inj h; rfl)
    | simp at h

/-- A word that is open ends before a text that is laid. -/
theorem Laid.finished {state : Lexing} (hstate : state = .between ∨ ∃ seen, state = .word seen)
    {ts : List Token} {text : List Char} (h : Laid ts text) :
    Laid (state.finished ++ ts) (state.chars ++ text) := by
  rcases hstate with rfl | ⟨seen, rfl⟩
  · exact h
  · exact h.token (.word seen.reverse)

/-- One character outside literals. -/
theorem Laid.outside {state : Lexing} (hstate : state = .between ∨ ∃ seen, state = .word seen)
    (c : Char) {ts : List Token} {cs : List Char}
    (h : Laid ts ((state.outside c).2.chars ++ cs)) :
    Laid ((state.outside c).1 ++ ts) (state.chars ++ c :: cs) := by
  unfold Lexing.outside at h ⊢
  split
  · rename_i hblank
    rw [if_pos hblank] at h
    exact (h.blank hblank).finished hstate
  · rename_i hblank
    rw [if_neg hblank] at h
    split
    · rename_i hquote
      rw [if_pos hquote] at h
      subst hquote
      exact h.finished hstate
    · rename_i hquote
      rw [if_neg hquote] at h
      cases hmark : Token.ofMark? c with
      | some mark =>
        simp only [hmark] at h ⊢
        have htoken := (h.token mark).finished hstate
        rw [chars_of_ofMark hmark] at htoken
        simpa [Lexing.chars] using htoken
      | none =>
        simp only [hmark] at h ⊢
        rcases hstate with rfl | ⟨seen, rfl⟩
        · exact h
        · simpa [Lexing.chars] using h

/-- One character. -/
theorem Laid.step : ∀ (state : Lexing) (c : Char) {ts : List Token} {cs : List Char},
    Laid ts ((state.step c).2.chars ++ cs) →
      Laid ((state.step c).1 ++ ts) (state.chars ++ c :: cs)
  | .between, c, ts, cs, h => Laid.outside (.inl rfl) c h
  | .word seen, c, ts, cs, h => Laid.outside (.inr ⟨seen, rfl⟩) c h
  | .escape seen, c, ts, cs, h => by simpa [Lexing.step, Lexing.chars] using h
  | .literal seen, c, ts, cs, h => by
    simp only [Lexing.step] at h ⊢
    by_cases hquote : c = '"'
    · subst hquote
      simp only [if_true] at h ⊢
      have htoken := h.token (.literal seen.reverse)
      simpa [Token.chars, Lexing.chars] using htoken
    · rw [if_neg hquote] at h ⊢
      split <;> simp_all [Lexing.chars]

theorem laid_of_tokensFrom : ∀ (text : List Char) (state : Lexing) {ts : List Token},
    tokensFrom state text = some ts → Laid ts (state.chars ++ text)
  | [], state, ts, h => by
    cases state with
    | between =>
      obtain rfl := Option.some.inj h
      exact .nil
    | word seen =>
      obtain rfl := Option.some.inj h
      exact Laid.nil.token (.word seen.reverse)
    | literal seen => simp [tokensFrom] at h
    | escape seen => simp [tokensFrom] at h
  | c :: cs, state, ts, h => by
    rw [tokensFrom_cons] at h
    obtain ⟨ts', hts', rfl⟩ := Option.map_eq_some_iff.mp h
    exact Laid.step state c (laid_of_tokensFrom cs _ hts')

/-- **A text that is cut into tokens is these tokens with blanks between them.** -/
theorem laid_of_tokens {text : List Char} {ts : List Token} (h : tokens text = some ts) :
    Laid ts text :=
  laid_of_tokensFrom text .between h

/-- Without tokens there are blanks only. -/
theorem Laid.exists_blanks {text : List Char} (h : Laid [] text) :
    ∃ b : Blanks, b.chars = text := by
  generalize hts : ([] : List Token) = ts at h
  induction h with
  | nil => exact ⟨.none, rfl⟩
  | @blank c _ _ hc _ ih =>
    obtain ⟨b, rfl⟩ := ih hts
    exact ⟨⟨c :: b.chars, by simpa [hc] using b.blank⟩, rfl⟩
  | token => cases hts

/-- The first token has blanks before it. -/
theorem Laid.exists_token {t : Token} {ts : List Token} {text : List Char}
    (h : Laid (t :: ts) text) :
    ∃ (b : Blanks) (rest : List Char), text = b.chars ++ (t.chars ++ rest) ∧ Laid ts rest := by
  generalize hts : t :: ts = ts' at h
  induction h with
  | nil => cases hts
  | @blank c _ _ hc _ ih =>
    obtain ⟨b, rest, rfl, hrest⟩ := ih hts
    exact ⟨⟨c :: b.chars, by simpa [hc] using b.blank⟩, rest, rfl, hrest⟩
  | @token ts text t h =>
    obtain ⟨rfl, rfl⟩ := List.cons.inj hts
    exact ⟨.none, text, rfl, h⟩

end SchemaAssist.Json
