/-
# Documents with their layout

A JSON text as the grammar derives it, with everything that a value forgets: the blanks between
tokens, the spelling of every literal, the order of members and repeated keys.  `Document.text` puts
the characters together again.

The parts carry what makes them well-formed, so that every `Document` is a well-formed text: blanks
are blanks of JSON, the source of a literal is a spelling of the text it stands for, and a bare word
is one that the reader of words accepts.  The texts of documents are just those that the reader of
JSON accepts (`Value.read?_eq_some_iff`).
-/
import SchemaAssist.Json.Reader
import SchemaAssist.Proofs.Json.Spelling

namespace SchemaAssist.Json

open SchemaAssist.Text

/-! ## 1. Tokens and blanks -/

/-- Blanks between two tokens. -/
structure Blanks where
  chars : List Char
  blank : ∀ c ∈ chars, isJsonBlank c = true

/-- A string literal. -/
structure Quotation where
  /-- What stands between the quotes. -/
  source : List Char
  /-- What the literal stands for. -/
  text : List Char
  spelled : Spelled source text

/-- The characters of a literal. -/
def Quotation.chars (q : Quotation) : List Char :=
  '"' :: (q.source ++ ['"'])

/-- A number, a truth value or `null`. -/
structure Bare where
  chars : List Char
  read : (readWord? chars).isSome = true

/-- What stands before the value of a member. -/
structure Label where
  before : Blanks
  key : Quotation
  /-- The blanks between the key and the colon. -/
  mid : Blanks
  /-- The blanks between the colon and the value. -/
  gap : Blanks

/-- The characters of a label. -/
def Label.chars (l : Label) : List Char :=
  l.before.chars ++ (l.key.chars ++ (l.mid.chars ++ ':' :: l.gap.chars))

/-! ## 2. Trees -/

mutual

/-- A value as it is written. -/
inductive Tree where
  | bare (w : Bare)
  | literal (q : Quotation)
  | emptyArray (inner : Blanks)
  | array (elements : Elements)
  | emptyObject (inner : Blanks)
  | object (entries : Entries)

/-- The elements of an array with the blanks around them. -/
inductive Elements where
  | last (before : Blanks) (t : Tree) (after : Blanks)
  | cons (before : Blanks) (t : Tree) (after : Blanks) (rest : Elements)

/-- The members of an object with the blanks around them. -/
inductive Entries where
  | last (label : Label) (t : Tree) (after : Blanks)
  | cons (label : Label) (t : Tree) (after : Blanks) (rest : Entries)

end

mutual

/-- The characters of a value. -/
def Tree.chars : Tree → List Char
  | .bare w => w.chars
  | .literal q => q.chars
  | .emptyArray inner => '[' :: (inner.chars ++ [']'])
  | .array elements => '[' :: (elements.chars ++ [']'])
  | .emptyObject inner => '{' :: (inner.chars ++ ['}'])
  | .object entries => '{' :: (entries.chars ++ ['}'])

/-- The characters of the elements of an array. -/
def Elements.chars : Elements → List Char
  | .last before t after => before.chars ++ (t.chars ++ after.chars)
  | .cons before t after rest => before.chars ++ (t.chars ++ (after.chars ++ ',' :: rest.chars))

/-- The characters of the members of an object. -/
def Entries.chars : Entries → List Char
  | .last label t after => label.chars ++ (t.chars ++ after.chars)
  | .cons label t after rest => label.chars ++ (t.chars ++ (after.chars ++ ',' :: rest.chars))

end

mutual

/-- The labels of the members in a value, at any depth. -/
def Tree.labels : Tree → List Label
  | .array elements => elements.labels
  | .object entries => entries.labels
  | _ => []

/-- The labels of the members in the elements of an array. -/
def Elements.labels : Elements → List Label
  | .last _ t _ => t.labels
  | .cons _ t _ rest => t.labels ++ rest.labels

/-- The labels of the members of an object and of those in their values. -/
def Entries.labels : Entries → List Label
  | .last label t _ => label :: t.labels
  | .cons label t _ rest => label :: (t.labels ++ rest.labels)

end

mutual

/-- The string literals in a value, keys and values alike. -/
def Tree.quotations : Tree → List Quotation
  | .literal q => [q]
  | .array elements => elements.quotations
  | .object entries => entries.quotations
  | _ => []

/-- The string literals in the elements of an array. -/
def Elements.quotations : Elements → List Quotation
  | .last _ t _ => t.quotations
  | .cons _ t _ rest => t.quotations ++ rest.quotations

/-- The string literals in the members of an object. -/
def Entries.quotations : Entries → List Quotation
  | .last label t _ => label.key :: t.quotations
  | .cons label t _ rest => label.key :: (t.quotations ++ rest.quotations)

end

/-! ## 3. Documents -/

/-- A well-formed JSON text: a value and the blanks around it. -/
structure Document where
  before : Blanks
  tree : Tree
  after : Blanks

namespace Document

/-- The characters of a document. -/
def text (d : Document) : List Char :=
  d.before.chars ++ (d.tree.chars ++ d.after.chars)

/-- The labels of all members, at any depth. -/
def labels (d : Document) : List Label := d.tree.labels

/-- All string literals, keys and values alike. -/
def quotations (d : Document) : List Quotation := d.tree.quotations

end Document

/-! ## 4. The characters of a bare word -/

/-- A character that bare words consist of. -/
def isBareChar (c : Char) : Bool :=
  c == '-' || c == '+' || c == '.' || c.isAlphanum

theorem isBareChar_of_isDigit {c : Char} (h : c.isDigit = true) : isBareChar c = true := by
  simp [isBareChar, Char.isAlphanum, h]

/-- Digits in front of bare characters are bare characters. -/
theorem isBareChar_of_splitDigits {text : List Char}
    (h : ∀ c ∈ (splitDigits text).2, isBareChar c = true) : ∀ c ∈ text, isBareChar c = true := by
  intro c hc
  rw [← List.takeWhile_append_dropWhile (p := Char.isDigit) (l := text)] at hc
  rcases List.mem_append.mp hc with hd | hr
  · exact isBareChar_of_isDigit (List.all_eq_true.mp List.all_takeWhile c hd)
  · exact h c hr

/-- The digits that an exponent needs are bare characters. -/
theorem isBareChar_of_digits {digits : List Char}
    (h : ¬ (digits.isEmpty || !digits.all Char.isDigit) = true) :
    ∀ c ∈ digits, isBareChar c = true := by
  intro c hc
  simp only [Bool.or_eq_true, not_or, Bool.not_eq_true', Bool.not_eq_false] at h
  exact isBareChar_of_isDigit (List.all_eq_true.mp h.2 c hc)

/-- What the digits of an exponent are taken from, when they are read as digits. -/
theorem isBareChar_of_signed {rest digits : List Char}
    (hrest : rest = '-' :: digits ∨ rest = '+' :: digits ∨ rest = digits) {k : Option (Option Int)}
    (h : (if digits.isEmpty || !digits.all Char.isDigit then none else k).isSome = true) :
    ∀ c ∈ rest, isBareChar c = true := by
  split at h
  · simp at h
  · rename_i hdigits
    have hall := isBareChar_of_digits hdigits
    rcases hrest with rfl | rfl | rfl
    · simpa [isBareChar] using hall
    · simpa [isBareChar] using hall
    · exact hall

theorem isBareChar_of_readExponent {text : List Char} (h : (readExponent? text).isSome = true) :
    ∀ c ∈ text, isBareChar c = true := by
  match text with
  | [] => simp
  | e :: rest =>
    simp only [readExponent?] at h
    split at h
    · rename_i he
      have he : isBareChar e = true := by rcases he with rfl | rfl <;> decide
      have hrest : ∀ c ∈ rest, isBareChar c = true := by
        split at h
        · exact isBareChar_of_signed (.inl rfl) h
        · exact isBareChar_of_signed (.inr (.inl rfl)) h
        · exact isBareChar_of_signed (.inr (.inr rfl)) h
      simpa [he] using hrest
    · simp at h

theorem isBareChar_of_readFraction {text : List Char} {fraction : Option (List Char)}
    {rest : List Char} (h : readFraction? text = some (fraction, rest))
    (hrest : ∀ c ∈ rest, isBareChar c = true) : ∀ c ∈ text, isBareChar c = true := by
  unfold readFraction? at h
  split at h
  · rename_i tail
    simp only at h
    split at h
    · simp at h
    · simp only [Option.some.injEq, Prod.mk.injEq] at h
      have htail : ∀ c ∈ tail, isBareChar c = true := by
        apply isBareChar_of_splitDigits
        rw [h.2]
        exact hrest
      simpa [isBareChar] using htail
  · simp only [Option.some.injEq, Prod.mk.injEq] at h
    rw [h.2]
    exact hrest

theorem isBareChar_of_readMagnitude {negative : Bool} {text : List Char}
    (h : (readMagnitude? negative text).isSome = true) : ∀ c ∈ text, isBareChar c = true := by
  unfold readMagnitude? at h
  simp only at h
  split at h
  · simp at h
  · apply isBareChar_of_splitDigits
    cases hf : readFraction? (splitDigits text).2 with
    | none => simp [hf] at h
    | some p =>
      obtain ⟨fraction, rest⟩ := p
      cases he : readExponent? rest with
      | none => simp [hf, he] at h
      | some exponent =>
        exact isBareChar_of_readFraction hf (isBareChar_of_readExponent (by simp [he]))

/-- The words that stand for a value consist of bare characters. -/
theorem isBareChar_of_readWord {word : List Char} (h : (readWord? word).isSome = true) :
    ∀ c ∈ word, isBareChar c = true := by
  unfold readWord? at h
  split at h
  · subst_vars
    exact List.all_eq_true.mp (by decide)
  split at h
  · subst_vars
    exact List.all_eq_true.mp (by decide)
  split at h
  · subst_vars
    exact List.all_eq_true.mp (by decide)
  split at h
  · subst_vars
    exact List.all_eq_true.mp (by decide)
  split at h
  · subst_vars
    exact List.all_eq_true.mp (by decide)
  split at h
  · subst_vars
    exact List.all_eq_true.mp (by decide)
  unfold readNumber? at h
  split at h
  · have := isBareChar_of_readMagnitude h
    simpa [isBareChar] using this
  · exact isBareChar_of_readMagnitude h

theorem Bare.isBareChar (w : Bare) : ∀ c ∈ w.chars, isBareChar c = true :=
  isBareChar_of_readWord w.read

/-- A word is not empty. -/
theorem Bare.chars_ne_nil (w : Bare) : w.chars ≠ [] := by
  intro h
  have := w.read
  rw [h] at this
  exact absurd this (by decide)

/-! ## 5. A document -/

/-- No blanks. -/
def Blanks.none : Blanks where
  chars := []
  blank := by simp

/-- A space. -/
def Blanks.space : Blanks where
  chars := [' ']
  blank := by simp [isJsonBlank]

/-- A literal without escapes. -/
def Quotation.plain (text : List Char)
    (h : ∀ c ∈ text, c ≠ '\\' ∧ c ≠ '"' ∧ 0x20 ≤ c.toNat) : Quotation where
  source := text
  text := text
  spelled := spelled_of_unescape (unescape_of_plain h)

/-- A document with a key in escapes, blanks before a colon, and an object in an array. -/
def Document.sample : Document where
  before := .none
  tree := .object (.last
    { before := .space
      key := ⟨"\\u0061\\n".toList, ['a', '\n'], spelled_of_unescape (by decide)⟩
      mid := .space
      gap := .none }
    (.array (.cons .none (.bare ⟨['1'], by decide⟩) .space
      (.last .space
        (.object (.last
          { before := .none
            key := .plain ['k'] (by simp)
            mid := .none
            gap := .space }
          (.literal (.plain ['v'] (by simp))) .none)) .none)))
    .space)
  after := .none

example : Document.sample.text
    = "\x7b \"\\u0061\\n\" :[1 , \x7b\"k\": \"v\"\x7d] \x7d".toList := by
  decide

end SchemaAssist.Json
