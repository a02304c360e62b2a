/-
# Tokens of JSON

A JSON text is cut into tokens: the six punctuation marks, string literals, and words, which are the
maximal runs of all other characters.  Blanks separate tokens and are dropped.  A literal keeps its
source and a word its characters; what they stand for is decided when tokens are read as a value.

`tokens` is one pass over the text; it fails only where a string literal is not closed.
-/
import SchemaAssist.Text.Blank

namespace SchemaAssist.Json

open SchemaAssist.Text

/-! ## 1. The type -/

/-- A token of JSON. -/
inductive Token where
  | openObject
  | closeObject
  | openArray
  | closeArray
  | comma
  | colon
  /-- A string literal: the source between its quotes. -/
  | literal (source : List Char)
  /-- A number or a name. -/
  | word (chars : List Char)
  deriving DecidableEq, Repr

/-- The punctuation mark that a character is. -/
def Token.ofMark? (c : Char) : Option Token :=
  if c = '{' then some .openObject
  else if c = '}' then some .closeObject
  else if c = '[' then some .openArray
  else if c = ']' then some .closeArray
  else if c = ',' then some .comma
  else if c = ':' then some .colon
  else none

/-- Whether a character belongs to a word. -/
def isWordPart (c : Char) : Bool :=
  !isJsonBlank c && c != '"' && (Token.ofMark? c).isNone

/-! ## 2. Cutting a text into tokens -/

/-- What the text read so far ends in. -/
inductive Lexing where
  | between
  /-- A word, its last character first. -/
  | word (seen : List Char)
  /-- A string literal, its last character first. -/
  | literal (seen : List Char)
  | escape (seen : List Char)
  deriving DecidableEq, Repr

/-- The token that ends where the text goes on outside literals, if a word is open. -/
def Lexing.finished : Lexing → List Token
  | .word seen => [.word seen.reverse]
  | _ => []

/-- A character outside literals: the tokens it completes, and what is open afterwards. -/
def Lexing.outside (state : Lexing) (c : Char) : List Token × Lexing :=
  if isJsonBlank c then (state.finished, .between)
  else if c = '"' then (state.finished, .literal [])
  else
    match Token.ofMark? c with
    | some mark => (state.finished ++ [mark], .between)
    | none =>
      match state with
      | .word seen => ([], .word (c :: seen))
      | _ => ([], .word [c])

/-- One character: the tokens it completes, and what is open afterwards. -/
def Lexing.step : Lexing → Char → List Token × Lexing
  | .literal seen, c =>
    if c = '"' then ([.literal seen.reverse], .between)
    else if c = '\\' then ([], .escape (c :: seen))
    else ([], .literal (c :: seen))
  | .escape seen, c => ([], .literal (c :: seen))
  | state, c => state.outside c

/-- The tokens of the rest of a text, or `none` if a literal is not closed at its end. -/
def tokensFrom : Lexing → List Char → Option (List Token)
  | .literal _, [] => none
  | .escape _, [] => none
  | state, [] => some state.finished
  | state, c :: cs =>
    let (done, next) := state.step c
    (tokensFrom next cs).map (done ++ ·)

/-- The tokens of a text, or `none` if a literal is not closed at its end. -/
def tokens (text : List Char) : Option (List Token) :=
  tokensFrom .between text

/-! ## 3. Small facts -/

theorem tokensFrom_cons (state : Lexing) (c : Char) (cs : List Char) :
    tokensFrom state (c :: cs) =
      (tokensFrom (state.step c).2 cs).map ((state.step c).1 ++ ·) := by
  cases state <;> rfl

/-- Blanks before a token are dropped. -/
theorem tokens_cons_of_isJsonBlank {c : Char} (h : isJsonBlank c = true) (cs : List Char) :
    tokens (c :: cs) = tokens cs := by
  have : Lexing.between.step c = ([], .between) := by
    simp [Lexing.step, Lexing.outside, h, Lexing.finished]
  rw [tokens, tokensFrom_cons, this]
  simp [tokens]

/-- A punctuation mark is a token wherever no token is open. -/
theorem tokens_cons_of_mark {c : Char} {t : Token} (h : Token.ofMark? c = some t)
    (cs : List Char) : tokens (c :: cs) = (tokens cs).map (t :: ·) := by
  have hb : isJsonBlank c = false ∧ c ≠ '"' := by
    simp only [Token.ofMark?] at h
    repeat' split at h
    all_goals first
      | (subst_vars; exact ⟨by decide, by decide⟩)
      | simp at h
  have : Lexing.between.step c = ([t], .between) := by
    simp [Lexing.step, Lexing.outside, hb.1, hb.2, h, Lexing.finished]
  rw [tokens, tokensFrom_cons, this]
  rfl

end SchemaAssist.Json
