/-
# Values in running text

A title or a description that is not given as a string is shown as running text.  A string stands
for itself there; inside an array or an object it is quoted as messages quote texts.  The names of
the values without digits and of the truth values differ from those of JSON.
-/
import SchemaAssist.Json.Writer
import SchemaAssist.Text.Echo

namespace SchemaAssist.Json

open SchemaAssist.Text

namespace Value

/-- The parts of a list between commas. -/
def commaSeparated (parts : List (List Char)) : List Char :=
  List.intercalate [',', ' '] parts

mutual

/-- A value as a part of running text. -/
def shownPart : Value → List Char
  | .null => "None".toList
  | .bool b => if b then "True".toList else "False".toList
  | .int n => integerText n
  | .double d => d.text .plain
  | .str s => echo s.toList
  | .arr items => '[' :: commaSeparated (shownItems items) ++ [']']
  | .obj ms => '{' :: commaSeparated (shownMembers ms) ++ ['}']

/-- The items of an array as parts of running text. -/
def shownItems : List Value → List (List Char)
  | [] => []
  | v :: vs => shownPart v :: shownItems vs

/-- The members of an object as parts of running text. -/
def shownMembers : Members → List (List Char)
  | [] => []
  | (k, v) :: ms => (echo k.toList ++ [':', ' '] ++ shownPart v) :: shownMembers ms

end

/-- A value as running text. -/
def shown : Value → String
  | .str s => s
  | v => String.ofList v.shownPart

end Value

end SchemaAssist.Json
