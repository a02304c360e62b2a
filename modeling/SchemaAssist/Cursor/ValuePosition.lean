/-
# The value position of a property

Whether the cursor stands where the value of a property goes, and which property it is.  Both are
read off the end of the text before the cursor.

The cursor is in value position if the text ends with a colon and blanks, or with a colon, spaces or
tabs, and a value that is still being typed: a literal that is open, or a bare token such as a
number or the start of `true`.  A literal that is closed has left the value position.

The property is found from the left: at the first quote from which a closed literal that is not
empty, a colon and at most a value that is being typed reach to the end of the text.
-/
import SchemaAssist.Cursor.KeyPath
import SchemaAssist.Text.Word

namespace SchemaAssist.Cursor

open SchemaAssist.Text

/-! ## 1. A value that is being typed -/

/-- Whether `text` stays inside a literal up to its end: no quote and no line feed that closes it,
and no backslash that is cut off. -/
def staysOpen : List Char → Bool
  | [] => true
  | '\\' :: [] => false
  | '\\' :: d :: ds => d != '\n' && staysOpen ds
  | c :: cs => c != '"' && c != '\n' && staysOpen cs

/-- Whether `c` can be part of a bare token: a sign, a point or a word character. -/
def isBare (c : Char) : Bool :=
  c == '-' || c == '+' || c == '.' || isWord c

/-- Whether `text` is a value that is being typed: an open literal or a bare token. -/
def isPartialValue (text : List Char) : Bool :=
  match text with
  | [] => false
  | c :: cs => if c = '"' then staysOpen cs else text.all isBare

/-- Whether `text` ends with a colon, spaces or tabs, and a value that is being typed. -/
def endsInPartialValue : List Char → Bool
  | [] => false
  | c :: cs => (c == ':' && isPartialValue (cs.dropWhile isIndent)) || endsInPartialValue cs

/-- Whether `text` ends with a colon, blanks apart. -/
def endsInColon (text : List Char) : Bool :=
  (trimEnd text).getLast? == some ':'

/-- Whether the end of `text` is the value position of a property. -/
def isAfterColon (text : List Char) : Bool :=
  endsInColon text || endsInPartialValue text

/-! ## 2. The property -/

/-- The source of a literal up to its closing quote on the same line, and what follows the quote. -/
def closedLiteral? : List Char → Option (List Char × List Char)
  | [] => none
  | '\\' :: [] => none
  | '\\' :: d :: ds =>
    if d = '\n' then none
    else (closedLiteral? ds).map fun (source, rest) => ('\\' :: d :: source, rest)
  | c :: cs =>
    if c = '"' then some ([], cs)
    else if c = '\n' then none
    else (closedLiteral? cs).map fun (source, rest) => (c :: source, rest)

/-- Whether `text` is a colon and at most a value that is being typed. -/
def isColonAndPartialValue (text : List Char) : Bool :=
  match text.dropWhile isBlank with
  | ':' :: rest =>
    let value := rest.dropWhile isJsonBlank
    value.isEmpty || isPartialValue value
  | _ => false

/-- The source of the key at the start of `text`, which follows a quote, if the text goes on with
that key's value being typed. -/
def keySource? (text : List Char) : Option (List Char) :=
  match closedLiteral? text with
  | some (source, rest) =>
    if !source.isEmpty && isColonAndPartialValue rest then some source else none
  | none => none

/-- The source of the first key whose value is being typed at the end of `text`. -/
def propertySource? : List Char → Option (List Char)
  | [] => none
  | c :: cs =>
    if c = '"' then
      match keySource? cs with
      | some source => some source
      | none => propertySource? cs
    else propertySource? cs

/-- The property whose value goes at the end of `text`. -/
def propertyName? (text : List Char) : Option String :=
  (propertySource? text).map decodeKey

end SchemaAssist.Cursor
