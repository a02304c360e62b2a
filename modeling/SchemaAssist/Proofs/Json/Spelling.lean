/-
# How a text is spelled inside a string literal

The grammar of JSON gives the inside of a string literal as a sequence of characters that stand for
themselves and of escapes: a backslash and a letter, or a backslash, a `u` and four hexadecimal
digits, where a character beyond the Basic Multilingual Plane takes the two halves of a surrogate
pair.  `Spelled source text` is that grammar, together with the text that a source stands for.

The reader of literals works character by character with a state of its own (`Reading`).  This file
proves that it accepts exactly the spellings of the grammar, with the text the grammar gives:

* `unescape_of_spelled`: every spelling is read;
* `spelled_of_unescape`: nothing else is.
-/
import SchemaAssist.Json.Quoted

namespace SchemaAssist.Json

/-! ## 1. The grammar -/

/-- `source`, between the quotes of a literal, stands for `text`. -/
inductive Spelled : List Char → List Char → Prop where
  | nil : Spelled [] []
  | plain {c : Char} {source text : List Char} : c ≠ '"' → c ≠ '\\' → 0x20 ≤ c.toNat →
      Spelled source text → Spelled (c :: source) (c :: text)
  | letter {l c : Char} {source text : List Char} : escapeLetter? l = some c →
      Spelled source text → Spelled ('\\' :: l :: source) (c :: text)
  /-- A code unit that is no half of a pair. -/
  | unit {h1 h2 h3 h4 c : Char} {n : Nat} {source text : List Char} :
      hexValue4? h1 h2 h3 h4 = some n → unitChar? n = some c →
      Spelled source text → Spelled ('\\' :: 'u' :: h1 :: h2 :: h3 :: h4 :: source) (c :: text)
  | pair {h1 h2 h3 h4 l1 l2 l3 l4 c : Char} {high low : Nat} {source text : List Char} :
      hexValue4? h1 h2 h3 h4 = some high → hexValue4? l1 l2 l3 l4 = some low →
      pairChar? high low = some c → Spelled source text →
      Spelled ('\\' :: 'u' :: h1 :: h2 :: h3 :: h4 :: '\\' :: 'u' :: l1 :: l2 :: l3 :: l4 :: source)
        (c :: text)

/-! ## 2. What the reader does with each kind of escape -/

/-- A code unit that opens a surrogate pair. -/
def IsHighSurrogate (n : Nat) : Prop := 0xd800 ≤ n ∧ n ≤ 0xdbff

instance (n : Nat) : Decidable (IsHighSurrogate n) := inferInstanceAs (Decidable (_ ∧ _))

theorem unescape_cons_of_ne {c : Char} (hc : c ≠ '\\') (cs : List Char) :
    unescape (c :: cs) =
      if c = '"' ∨ c.toNat < 0x20 then none else (unescape cs).map (c :: ·) := by
  by_cases h : c = '"' ∨ c.toNat < 0x20 <;>
    simp [unescape, unescapeFrom, Reading.step, hc, h]

theorem unescape_letter {l : Char} (hl : l ≠ 'u') (cs : List Char) :
    unescape ('\\' :: l :: cs) = (escapeLetter? l).bind fun c => (unescape cs).map (c :: ·) := by
  cases h : escapeLetter? l <;>
    simp [unescape, unescapeFrom, Reading.step, hl, h, Function.comp_def]

/-- The four digits of an escape, whatever half of a pair waits for them. -/
theorem unescapeFrom_digits (waiting : Option Nat) (h1 h2 h3 h4 : Char) (cs : List Char) :
    unescapeFrom (.digits waiting []) (h1 :: h2 :: h3 :: h4 :: cs) =
      (hexValue4? h1 h2 h3 h4).bind fun n =>
        match waiting with
        | none =>
          if IsHighSurrogate n then unescapeFrom (.half n) cs
          else (unitChar? n).bind fun c => (unescape cs).map (c :: ·)
        | some high => (pairChar? high n).bind fun c => (unescape cs).map (c :: ·) := by
  cases h : hexValue4? h1 h2 h3 h4 with
  | none => simp [unescapeFrom, Reading.step, h]
  | some n =>
    cases waiting with
    | none =>
      by_cases hn : 0xd800 ≤ n ∧ n ≤ 0xdbff
      · simp [unescapeFrom, Reading.step, h, IsHighSurrogate, hn]
      · cases hc : unitChar? n <;>
          simp [unescapeFrom, Reading.step, h, IsHighSurrogate, hn, hc, unescape,
            Function.comp_def]
    | some high =>
      cases hc : pairChar? high n <;>
        simp [unescapeFrom, Reading.step, h, hc, unescape, Function.comp_def]

/-- Fewer than four digits are no escape. -/
theorem unescapeFrom_digits_of_length_lt (waiting : Option Nat) :
    ∀ {cs : List Char}, cs.length < 4 → unescapeFrom (.digits waiting []) cs = none
  | [], _ => by simp [unescapeFrom]
  | [_], _ => by simp [unescapeFrom, Reading.step]
  | [_, _], _ => by simp [unescapeFrom, Reading.step]
  | [_, _, _], _ => by simp [unescapeFrom, Reading.step]
  | _ :: _ :: _ :: _ :: _, h => absurd h (by simp)

theorem unescape_unit (cs : List Char) :
    unescape ('\\' :: 'u' :: cs) = unescapeFrom (.digits none []) cs := by
  simp [unescape, unescapeFrom, Reading.step]

/-- After the first half of a pair only the escape of the second half is read. -/
theorem unescapeFrom_half (high : Nat) (cs : List Char) :
    unescapeFrom (.half high) ('\\' :: 'u' :: cs) = unescapeFrom (.digits (some high) []) cs := by
  simp [unescapeFrom, Reading.step]

theorem exists_of_unescapeFrom_half {high : Nat} {cs text : List Char}
    (h : unescapeFrom (.half high) cs = some text) : ∃ rest, cs = '\\' :: 'u' :: rest := by
  match cs with
  | [] => simp [unescapeFrom] at h
  | [c] =>
    by_cases hc : c = '\\' <;> simp [unescapeFrom, Reading.step, hc] at h
  | c :: d :: rest =>
    by_cases hc : c = '\\'
    · by_cases hd : d = 'u'
      · exact ⟨rest, by rw [hc, hd]⟩
      · simp [unescapeFrom, Reading.step, hc, hd] at h
    · simp [unescapeFrom, Reading.step, hc] at h

/-! ## 3. The reader and the grammar agree -/

theorem not_isHighSurrogate_of_unitChar {n : Nat} {c : Char} (h : unitChar? n = some c) :
    ¬ IsHighSurrogate n := by
  intro hn
  have : 0xd800 ≤ n ∧ n ≤ 0xdfff := ⟨hn.1, by have := hn.2; omega⟩
  simp [unitChar?, this] at h

theorem isHighSurrogate_of_pairChar {high low : Nat} {c : Char}
    (h : pairChar? high low = some c) : IsHighSurrogate high := by
  unfold pairChar? at h
  split at h
  · rename_i hp; exact ⟨hp.1, hp.2.1⟩
  · simp at h

/-- **Every spelling is read**, as the text it stands for. -/
theorem unescape_of_spelled {source text : List Char} (h : Spelled source text) :
    unescape source = some text := by
  induction h with
  | nil => rfl
  | plain h1 h2 h3 _ ih =>
    have h4 : ¬ (_ ∨ _) := not_or.mpr ⟨h1, Nat.not_lt.mpr h3⟩
    rw [unescape_cons_of_ne h2, if_neg h4, ih]
    rfl
  | @letter l c _ _ hl _ ih =>
    have hu : l ≠ 'u' := by rintro rfl; simp [escapeLetter?] at hl
    rw [unescape_letter hu, hl, ih]
    rfl
  | unit hn hc _ ih =>
    rw [unescape_unit, unescapeFrom_digits, hn]
    simp [not_isHighSurrogate_of_unitChar hc, hc, ih]
  | pair hh hl hc _ ih =>
    rw [unescape_unit, unescapeFrom_digits, hh]
    simp only [Option.bind_some, isHighSurrogate_of_pairChar hc, if_true]
    rw [unescapeFrom_half, unescapeFrom_digits, hl]
    simp [hc, ih]

/-- Four characters at the front of a text that has them. -/
theorem exists_cons_four {cs : List Char} (h : ¬ cs.length < 4) :
    ∃ a b c d rest, cs = a :: b :: c :: d :: rest := by
  match cs with
  | [] | [_] | [_, _] | [_, _, _] => simp at h
  | a :: b :: c :: d :: rest => exact ⟨a, b, c, d, rest, rfl⟩

/-- What is read after four digits starts with four digits. -/
theorem exists_of_unescapeFrom_digits {waiting : Option Nat} {cs text : List Char}
    (h : unescapeFrom (.digits waiting []) cs = some text) :
    ∃ h1 h2 h3 h4 rest, cs = h1 :: h2 :: h3 :: h4 :: rest := by
  by_cases hlen : cs.length < 4
  · rw [unescapeFrom_digits_of_length_lt waiting hlen] at h
    simp at h
  · exact exists_cons_four hlen

/-- `source` starts with the spelling of one character, and goes on with a shorter source that is
read. -/
def StartsSpelled (source text : List Char) : Prop :=
  ∃ rest c t, rest.length < source.length ∧ unescape rest = some t ∧ text = c :: t ∧
    (Spelled rest t → Spelled source (c :: t))

theorem startsSpelled_unit {cs text : List Char} (h : unescape ('\\' :: 'u' :: cs) = some text) :
    StartsSpelled ('\\' :: 'u' :: cs) text := by
  rw [unescape_unit] at h
  obtain ⟨h1, h2, h3, h4, rest, rfl⟩ := exists_of_unescapeFrom_digits h
  rw [unescapeFrom_digits] at h
  obtain ⟨n, hn, h⟩ := Option.bind_eq_some_iff.mp h
  by_cases hs : IsHighSurrogate n
  · simp only [hs, if_true] at h
    obtain ⟨low, rfl⟩ := exists_of_unescapeFrom_half h
    rw [unescapeFrom_half] at h
    obtain ⟨l1, l2, l3, l4, rest, rfl⟩ := exists_of_unescapeFrom_digits h
    rw [unescapeFrom_digits] at h
    obtain ⟨m, hm, h⟩ := Option.bind_eq_some_iff.mp h
    obtain ⟨c, hc, h⟩ := Option.bind_eq_some_iff.mp h
    obtain ⟨t, ht, rfl⟩ := Option.map_eq_some_iff.mp h
    exact ⟨rest, c, t, by simp only [List.length_cons]; omega, ht, rfl, .pair hn hm hc⟩
  · simp only [hs, if_false] at h
    obtain ⟨c, hc, h⟩ := Option.bind_eq_some_iff.mp h
    obtain ⟨t, ht, rfl⟩ := Option.map_eq_some_iff.mp h
    exact ⟨rest, c, t, by simp only [List.length_cons]; omega, ht, rfl, .unit hn hc⟩

theorem startsSpelled_cons {c : Char} {cs text : List Char} (h : unescape (c :: cs) = some text) :
    StartsSpelled (c :: cs) text := by
  by_cases hc : c = '\\'
  · subst hc
    match cs with
    | [] => simp [unescape, unescapeFrom, Reading.step] at h
    | l :: cs =>
      by_cases hl : l = 'u'
      · subst hl
        exact startsSpelled_unit h
      · rw [unescape_letter hl] at h
        obtain ⟨x, hx, h⟩ := Option.bind_eq_some_iff.mp h
        obtain ⟨t, ht, rfl⟩ := Option.map_eq_some_iff.mp h
        exact ⟨cs, x, t, by simp only [List.length_cons]; omega, ht, rfl, .letter hx⟩
  · rw [unescape_cons_of_ne hc] at h
    split at h
    · simp at h
    · rename_i hq
      obtain ⟨hq, hctl⟩ := not_or.mp hq
      obtain ⟨t, ht, rfl⟩ := Option.map_eq_some_iff.mp h
      exact ⟨cs, c, t, by simp, ht, rfl, .plain hq hc (Nat.le_of_not_lt hctl)⟩

/-- **Nothing but spellings is read.**  The induction is on the length of the source, since an
escape takes several characters at once. -/
theorem spelled_of_unescape {source text : List Char} (h : unescape source = some text) :
    Spelled source text := by
  match source with
  | [] =>
    simp only [unescape, unescapeFrom, if_true, Option.some.injEq] at h
    exact h ▸ .nil
  | c :: cs =>
    obtain ⟨rest, x, t, hlt, ht, rfl, hspelled⟩ := startsSpelled_cons h
    exact hspelled (spelled_of_unescape ht)
termination_by source.length
decreasing_by exact hlt

/-- Only the empty source stands for the empty text. -/
theorem Spelled.source_ne_nil {source text : List Char} (h : Spelled source text)
    (ht : text ≠ []) : source ≠ [] := by
  rintro rfl
  cases h
  exact ht rfl

/-! ## 4. Hexadecimal digits -/

/-- A hexadecimal digit is plain. -/
theorem plain_of_hexValue {c : Char} {n : Nat} (h : hexValue? c = some n) :
    c ≠ '"' ∧ c ≠ '\\' ∧ 0x20 ≤ c.toNat := by
  refine ⟨?_, ?_, ?_⟩
  · rintro rfl; simp [hexValue?] at h
  · rintro rfl; simp [hexValue?] at h
  · simp only [hexValue?] at h
    split at h
    · rename_i hc
      exact Nat.le_trans (by decide) (show '0'.toNat ≤ c.toNat from hc.1)
    split at h
    · rename_i hc
      exact Nat.le_trans (by decide) (show 'a'.toNat ≤ c.toNat from hc.1)
    split at h
    · rename_i hc
      exact Nat.le_trans (by decide) (show 'A'.toNat ≤ c.toNat from hc.1)
    · simp at h

/-- So are the four digits of an escape. -/
theorem plain_of_hexValue4 {a b c d : Char} {n : Nat} (h : hexValue4? a b c d = some n) :
    ∀ x ∈ [a, b, c, d], x ≠ '"' ∧ x ≠ '\\' ∧ 0x20 ≤ x.toNat := by
  simp only [hexValue4?, bind, Option.bind_eq_some_iff] at h
  obtain ⟨_, ha, _, hb, _, hc, _, hd, -⟩ := h
  intro x hx
  simp only [List.mem_cons, List.not_mem_nil, or_false] at hx
  rcases hx with rfl | rfl | rfl | rfl
  · exact plain_of_hexValue ha
  · exact plain_of_hexValue hb
  · exact plain_of_hexValue hc
  · exact plain_of_hexValue hd

end SchemaAssist.Json
