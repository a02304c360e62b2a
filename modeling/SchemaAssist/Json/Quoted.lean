/-
# String literals

The inside of a JSON string literal, between its quotes: how a text is escaped, and how the source
of a literal is read back.

Writing escapes the quote, the backslash and the controls below U+0020, five of them by a letter and
the others by four hexadecimal digits.  A literal in ASCII also writes every other character outside
the range from the space to the tilde by hexadecimal digits, one beyond the Basic Multilingual Plane
by the two halves of its surrogate pair.

Reading is strict: a raw quote or control, an unknown escape and an escape that is cut short are
refused, and so is half a surrogate pair, which stands for no character.
-/
import SchemaAssist.Text.Echo

namespace SchemaAssist.Json

open SchemaAssist.Text

/-! ## 1. Writing -/

/-- The escape of a UTF-16 code unit. -/
def unitEscape (unit : Nat) : List Char :=
  '\\' :: 'u' :: hexDigits 4 unit

/-- The first half of the surrogate pair of a code point beyond U+FFFF. -/
def highSurrogate (n : Nat) : Nat := 0xd800 + (n - 0x10000) / 0x400

/-- The second half of the surrogate pair of a code point beyond U+FFFF. -/
def lowSurrogate (n : Nat) : Nat := 0xdc00 + (n - 0x10000) % 0x400

/-- The source of one character inside a literal; an `ascii` literal escapes all that is not
printable ASCII. -/
def escapeChar (ascii : Bool) (c : Char) : List Char :=
  if c = '"' then ['\\', '"']
  else if c = '\\' then ['\\', '\\']
  else if c = '\n' then ['\\', 'n']
  else if c = '\r' then ['\\', 'r']
  else if c = '\t' then ['\\', 't']
  else if c = '\x08' then ['\\', 'b']
  else if c = '\x0c' then ['\\', 'f']
  else if c.toNat < 0x20 then unitEscape c.toNat
  else if ascii && 0x7e < c.toNat then
    if c.toNat < 0x10000 then unitEscape c.toNat
    else unitEscape (highSurrogate c.toNat) ++ unitEscape (lowSurrogate c.toNat)
  else [c]

/-- The inside of the literal of a text. -/
def escape (ascii : Bool) (text : List Char) : List Char :=
  text.flatMap (escapeChar ascii)

/-- The literal of a text, with its quotes. -/
def quoted (ascii : Bool) (text : List Char) : List Char :=
  '"' :: escape ascii text ++ ['"']

/-! ## 2. Reading -/

/-- The value of a hexadecimal digit. -/
def hexValue? (c : Char) : Option Nat :=
  if '0' ≤ c ∧ c ≤ '9' then some (c.toNat - '0'.toNat)
  else if 'a' ≤ c ∧ c ≤ 'f' then some (c.toNat - 'a'.toNat + 10)
  else if 'A' ≤ c ∧ c ≤ 'F' then some (c.toNat - 'A'.toNat + 10)
  else none

/-- The value of four hexadecimal digits. -/
def hexValue4? (a b c d : Char) : Option Nat := do
  return ((← hexValue? a) * 16 + (← hexValue? b)) * 256 + (← hexValue? c) * 16 + (← hexValue? d)

/-- The character that a letter after a backslash stands for. -/
def escapeLetter? (c : Char) : Option Char :=
  if c = '"' ∨ c = '\\' ∨ c = '/' then some c
  else if c = 'n' then some '\n'
  else if c = 'r' then some '\r'
  else if c = 't' then some '\t'
  else if c = 'b' then some '\x08'
  else if c = 'f' then some '\x0c'
  else none

/-- The character of a code unit that is no half of a pair. -/
def unitChar? (unit : Nat) : Option Char :=
  if 0xd800 ≤ unit ∧ unit ≤ 0xdfff then none else some (Char.ofNat unit)

/-- The character of a surrogate pair. -/
def pairChar? (high low : Nat) : Option Char :=
  if 0xd800 ≤ high ∧ high ≤ 0xdbff ∧ 0xdc00 ≤ low ∧ low ≤ 0xdfff then
    some (Char.ofNat (0x10000 + (high - 0xd800) * 0x400 + (low - 0xdc00)))
  else none

/-- What the reader of a literal is in the middle of. -/
inductive Reading where
  | plain
  | escape
  /-- Inside the hexadecimal digits of an escape, the last digit first; `high` is the first half of
  a pair that waits for its second. -/
  | digits (high : Option Nat) (seen : List Char)
  /-- After the first half of a pair. -/
  | half (high : Nat)
  /-- After the first half of a pair and a backslash. -/
  | halfEscape (high : Nat)
  deriving DecidableEq, Repr

/-- One character of the inside of a literal: the character it completes, if any, and what the
reader is in the middle of afterwards. -/
def Reading.step : Reading → Char → Option (Option Char × Reading)
  | .plain, c =>
    if c = '\\' then some (none, .escape)
    else if c = '"' ∨ c.toNat < 0x20 then none
    else some (some c, .plain)
  | .escape, c =>
    if c = 'u' then some (none, .digits none [])
    else (escapeLetter? c).map fun x => (some x, .plain)
  | .digits high [d3, d2, d1], d4 => do
    let unit ← hexValue4? d1 d2 d3 d4
    match high with
    | none =>
      if 0xd800 ≤ unit ∧ unit ≤ 0xdbff then some (none, .half unit)
      else (unitChar? unit).map fun x => (some x, .plain)
    | some h => (pairChar? h unit).map fun x => (some x, .plain)
  | .digits high seen, d => some (none, .digits high (d :: seen))
  | .half high, c => if c = '\\' then some (none, .halfEscape high) else none
  | .halfEscape high, c => if c = 'u' then some (none, .digits (some high) []) else none

/-- The text that the rest of the inside of a literal stands for. -/
def unescapeFrom : Reading → List Char → Option (List Char)
  | state, [] => if state = .plain then some [] else none
  | state, c :: cs =>
    match state.step c with
    | none => none
    | some (done, next) => (unescapeFrom next cs).map (done.toList ++ ·)

/-- The text that the inside of a literal stands for, or `none` where it is malformed. -/
def unescape (source : List Char) : Option (List Char) :=
  unescapeFrom .plain source

/-! ## 3. Small facts -/

/-- A source without backslash stands for itself, unless a quote or a control forbids it. -/
theorem unescape_of_plain {source : List Char}
    (h : ∀ c ∈ source, c ≠ '\\' ∧ c ≠ '"' ∧ 0x20 ≤ c.toNat) : unescape source = some source := by
  induction source with
  | nil => rfl
  | cons c cs ih =>
    obtain ⟨h1, h2, h3⟩ := h c (by simp)
    have h4 : ¬ c.toNat < 0x20 := by omega
    have := ih fun x hx => h x (by simp [hx])
    simp only [unescape] at this
    simp [unescape, unescapeFrom, Reading.step, h1, h2, h4, this]

example : unescape "a\\n\\u00e9\\ud83d\\ude00".toList = some ['a', '\n', 'é', '😀'] := by decide
example : escape true ['é', '😀', '\x7f'] = "\\u00e9\\ud83d\\ude00\\u007f".toList := by decide

end SchemaAssist.Json
