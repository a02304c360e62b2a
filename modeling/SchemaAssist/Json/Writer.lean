/-
# Writing JSON

A value is written under a `Layout`: which characters literals escape, what separates items and
names from what follows, and whether items stand on lines of their own.  Four layouts are in use:

- `compact`: on one line without blanks, for values shown in a line;
- `spaced`: on one line with a blank after every comma and colon, for enum members;
- `pretty`: one item a line, two blanks a level, for values in templates;
- `published`: as `pretty` and in ASCII, for schema documents that are handed out.

Empty containers are written without a line break in every layout.  Integers are written in decimal,
doubles with the fewest digits that read back.
-/
import SchemaAssist.Json.Quoted
import SchemaAssist.Json.Shortest
import SchemaAssist.Json.Value

namespace SchemaAssist.Json

/-! ## 1. Layouts -/

/-- How values are laid out as text. -/
structure Layout where
  /-- Literals escape all that is not printable ASCII. -/
  ascii : Bool
  /-- What stands between two items, a line break apart. -/
  itemMark : List Char
  nameMark : List Char
  /-- How many blanks a level is indented by, if items stand on lines of their own. -/
  indent : Option Nat

namespace Layout

/-- One line without blanks. -/
def compact : Layout where
  ascii := false
  itemMark := [',']
  nameMark := [':']
  indent := none

/-- One line with a blank after every comma and colon. -/
def spaced : Layout where
  ascii := false
  itemMark := [',', ' ']
  nameMark := [':', ' ']
  indent := none

/-- One item a line, two blanks a level. -/
def pretty : Layout where
  ascii := false
  itemMark := [',']
  nameMark := [':', ' ']
  indent := some 2

/-- One item a line, two blanks a level, in ASCII. -/
def published : Layout :=
  { pretty with ascii := true }

/-- The line break before an item at a depth. -/
def lineBreak (l : Layout) (depth : Nat) : List Char :=
  match l.indent with
  | none => []
  | some width => '\n' :: List.replicate (width * depth) ' '

end Layout

/-! ## 2. Scalars -/

/-- An integer in decimal. -/
def integerText (n : Int) : List Char :=
  if n < 0 then '-' :: Nat.toDigits 10 n.natAbs else Nat.toDigits 10 n.natAbs

/-- A truth value. -/
def boolText (b : Bool) : List Char :=
  if b then "true".toList else "false".toList

/-! ## 3. Values -/

namespace Value

mutual

/-- A value at a depth of the text. -/
def write (l : Layout) (depth : Nat) : Value → List Char
  | .null => "null".toList
  | .bool b => boolText b
  | .int n => integerText n
  | .double d => d.text .json
  | .str s => quoted l.ascii s.toList
  | .arr [] => ['[', ']']
  | .arr (v :: vs) =>
    '[' :: (l.lineBreak (depth + 1) ++ write l (depth + 1) v ++ writeItems l (depth + 1) vs
      ++ l.lineBreak depth ++ [']'])
  | .obj [] => ['{', '}']
  | .obj ((k, v) :: ms) =>
    '{' :: (l.lineBreak (depth + 1) ++ quoted l.ascii k.toList ++ l.nameMark
      ++ write l (depth + 1) v ++ writeMembers l (depth + 1) ms ++ l.lineBreak depth ++ ['}'])

/-- The items after the first one, each with what separates it from the item before. -/
def writeItems (l : Layout) (depth : Nat) : List Value → List Char
  | [] => []
  | v :: vs => l.itemMark ++ l.lineBreak depth ++ write l depth v ++ writeItems l depth vs

/-- The members after the first one, each with what separates it from the member before. -/
def writeMembers (l : Layout) (depth : Nat) : Members → List Char
  | [] => []
  | (k, v) :: ms =>
    l.itemMark ++ l.lineBreak depth ++ quoted l.ascii k.toList ++ l.nameMark
      ++ write l depth v ++ writeMembers l depth ms

end

/-- The text of a value under a layout. -/
def text (l : Layout) (v : Value) : String :=
  String.ofList (v.write l 0)

/-- The text of a value on one line without blanks. -/
def compact (v : Value) : String := v.text .compact

/-- The text of a value with one item a line. -/
def pretty (v : Value) : String := v.text .pretty

end Value

/-- The literal of a string, with its quotes. -/
def literal (s : String) : String :=
  String.ofList (quoted false s.toList)

end SchemaAssist.Json
