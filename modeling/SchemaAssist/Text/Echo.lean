/-
# Texts quoted in messages

A message that names a text shows it between quotes: single quotes, unless the text holds a single
quote and no double quote.  The backslash and the chosen quote are escaped, tab, line feed and
carriage return have escapes of their own, other characters that are not printable are shown by
their code point in hexadecimal, and every other character stands for itself.
-/
import SchemaAssist.Text.Unprintable

namespace SchemaAssist.Text

/-- The last `width` hexadecimal digits of `n`, in lower case. -/
def hexDigits (width n : Nat) : List Char :=
  match width with
  | 0 => []
  | w + 1 => hexDigits w (n / 16) ++ [Nat.digitChar (n % 16)]

/-- The quote that a text is shown in. -/
def echoQuote (text : List Char) : Char :=
  if text.contains '\'' && !text.contains '"' then '"' else '\''

/-- How one character is shown between quotes `quote`. -/
def echoChar (quote c : Char) : List Char :=
  if c = quote ∨ c = '\\' then ['\\', c]
  else if c = '\t' then ['\\', 't']
  else if c = '\n' then ['\\', 'n']
  else if c = '\r' then ['\\', 'r']
  else if isPrintable c then [c]
  else if c.toNat < 0x100 then '\\' :: 'x' :: hexDigits 2 c.toNat
  else if c.toNat < 0x10000 then '\\' :: 'u' :: hexDigits 4 c.toNat
  else '\\' :: 'U' :: hexDigits 8 c.toNat

/-- A text as a message shows it. -/
def echo (text : List Char) : List Char :=
  let quote := echoQuote text
  quote :: text.flatMap (echoChar quote) ++ [quote]

end SchemaAssist.Text
