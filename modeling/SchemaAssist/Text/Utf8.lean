/-
# UTF-8 bytes

The UTF-8 form of a text, and the text that a sequence of bytes stands for.  Decoding never fails:
where the bytes stop being UTF-8, the longest part that could still have begun a character is
replaced by one U+FFFD, and decoding goes on after it.

Decoding is one pass.  Between bytes it knows how many bytes the character still needs, the bits
read so far, and the range that the next byte has to lie in; that range is what rules out overlong
forms, surrogates and code points beyond U+10FFFF.
-/

namespace SchemaAssist.Text

/-! ## 1. Encoding -/

/-- The bytes of a character. -/
def utf8Bytes (c : Char) : List Nat :=
  let n := c.toNat
  if n < 0x80 then [n]
  else if n < 0x800 then [0xc0 + n / 0x40, 0x80 + n % 0x40]
  else if n < 0x10000 then [0xe0 + n / 0x1000, 0x80 + n / 0x40 % 0x40, 0x80 + n % 0x40]
  else [0xf0 + n / 0x40000, 0x80 + n / 0x1000 % 0x40, 0x80 + n / 0x40 % 0x40, 0x80 + n % 0x40]

/-! ## 2. Decoding -/

/-- The character that stands for bytes that are not UTF-8. -/
def replacement : Char := '\ufffd'

/-- What a decoder has read of a character. -/
inductive Utf8State where
  | start
  /-- The first bytes: `owed` more follow, the next of which lies from `low` to `high`. -/
  | partway (owed bits low high : Nat)
  deriving DecidableEq, Repr

/-- A byte between two characters: the character it is, and the state after it. -/
def Utf8State.first (b : Nat) : List Char × Utf8State :=
  if b < 0x80 then ([Char.ofNat b], .start)
  else if 0xc2 ≤ b ∧ b ≤ 0xdf then ([], .partway 1 (b - 0xc0) 0x80 0xbf)
  else if b = 0xe0 then ([], .partway 2 0 0xa0 0xbf)
  else if b = 0xed then ([], .partway 2 0xd 0x80 0x9f)
  else if 0xe1 ≤ b ∧ b ≤ 0xef then ([], .partway 2 (b - 0xe0) 0x80 0xbf)
  else if b = 0xf0 then ([], .partway 3 0 0x90 0xbf)
  else if 0xf1 ≤ b ∧ b ≤ 0xf3 then ([], .partway 3 (b - 0xf0) 0x80 0xbf)
  else if b = 0xf4 then ([], .partway 3 4 0x80 0x8f)
  else ([replacement], .start)

/-- A byte: the characters it completes or breaks off, and the state after it. -/
def Utf8State.step : Utf8State → Nat → List Char × Utf8State
  | .start, b => first b
  | .partway owed bits low high, b =>
    if low ≤ b ∧ b ≤ high then
      let bits := bits * 0x40 + (b - 0x80)
      if owed ≤ 1 then ([Char.ofNat bits], .start) else ([], .partway (owed - 1) bits 0x80 0xbf)
    else
      let (done, next) := first b
      (replacement :: done, next)

/-- The text of the rest of a sequence of bytes. -/
def decodeFrom : Utf8State → List Nat → List Char
  | .start, [] => []
  | .partway .., [] => [replacement]
  | state, b :: bs =>
    let (done, next) := state.step b
    done ++ decodeFrom next bs

/-- The text that a sequence of bytes stands for. -/
def decodeUtf8 (bytes : List Nat) : List Char :=
  decodeFrom .start bytes

example : decodeUtf8 (utf8Bytes 'é' ++ utf8Bytes '😀' ++ utf8Bytes '€') = ['é', '😀', '€'] := by
  decide
example : decodeUtf8 [0xed, 0xa0, 0x80] = [replacement, replacement, replacement] := by decide

end SchemaAssist.Text
