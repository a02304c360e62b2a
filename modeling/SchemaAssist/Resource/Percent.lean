/-
# Percent escapes

A URI writes bytes as a percent sign and two hexadecimal digits.  Decoding takes each maximal run of
ASCII characters as bytes, its escapes replaced by the bytes they name, and reads the run as UTF-8.
A percent sign without two digits after it stands for itself, and so does every character beyond
ASCII.
-/
import SchemaAssist.Json.Quoted
import SchemaAssist.Text.Utf8

namespace SchemaAssist.Resource

open SchemaAssist.Json SchemaAssist.Text

/-! ## 1. Decoding -/

/-- Whether a character is ASCII. -/
def isAscii (c : Char) : Bool := c.toNat < 0x80

/-- The byte of two hexadecimal digits. -/
def byte? (a b : Char) : Option Nat :=
  match hexValue? a, hexValue? b with
  | some x, some y => some (x * 16 + y)
  | _, _ => none

/-- The bytes of a run of ASCII characters. -/
def runBytes : List Char → List Nat
  | [] => []
  | '%' :: a :: b :: cs =>
    match byte? a b with
    | some n => n :: runBytes cs
    | none => '%'.toNat :: runBytes (a :: b :: cs)
  | c :: cs => c.toNat :: runBytes cs

/-- The text with the ASCII characters `run`, the last one first, before it, when the run ends where
the text does or at a character beyond ASCII. -/
def decodeRuns : List Char → List Char → List Char
  | run, [] => decodeUtf8 (runBytes run.reverse)
  | run, c :: cs =>
    if isAscii c then decodeRuns (c :: run) cs
    else decodeUtf8 (runBytes run.reverse) ++ c :: decodeRuns [] cs

/-- The text that a part of a URI stands for. -/
def unquote (text : List Char) : List Char :=
  decodeRuns [] text

/-! ## 2. Encoding -/

/-- Whether a character stands for itself in every part of a URI. -/
def isUnreserved (c : Char) : Bool :=
  c.isAlphanum || c == '-' || c == '.' || c == '_' || c == '~'

/-- The escape of a byte, in upper case. -/
def byteEscape (n : Nat) : List Char :=
  '%' :: (hexDigits 2 n).map Char.toUpper

/-- A character as a part of a URI, escaped unless it stands for itself or `keep` lets it. -/
def quoteChar (keep : Char → Bool) (c : Char) : List Char :=
  if isUnreserved c || keep c then [c] else (utf8Bytes c).flatMap byteEscape

/-- A text as a part of a URI. -/
def quote (keep : Char → Bool) (text : List Char) : List Char :=
  text.flatMap (quoteChar keep)

example : unquote "a%20b%C3%A9%zz%".toList = "a bé%zz%".toList := by decide +kernel
example : unquote (quote (fun _ => false) "é/😀 %".toList) = "é/😀 %".toList := by decide +kernel

end SchemaAssist.Resource
