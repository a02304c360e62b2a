/-
# Inline suggestions

Right after the colon of a property the editor shows the value that the schema suggests, on the line
and in grey.  The value is the recommended one, else the default, else `false` for a boolean; it is
written on one line and left out where it would be too long or would break the line.
-/
import SchemaAssist.Cursor.Context
import SchemaAssist.Template.Literal
import SchemaAssist.Schema.Node

namespace SchemaAssist.Completion

open SchemaAssist.Json SchemaAssist.Schema SchemaAssist.Template SchemaAssist.Text
  SchemaAssist.Cursor

/-! ## 1. The text -/

/-- The value that a schema suggests inline. -/
def inlineValue (h : Hints) : Option Value :=
  match h.suggested with
  | some v => some v
  | none => if h.primaryType = "boolean" then some (.bool false) else none

/-- `text` if it holds no more than `limit` characters. -/
def within (limit : Nat) (text : String) : Option String :=
  if text.length ≤ limit then some text else none

/-- A value under the tag `string`: its literal, unless it breaks the line. -/
def inlineString (v : Value) : Option String :=
  let text := match v with
    | .str s => s
    | v => v.compact
  if text.contains '\n' then none else some (literal text)

/-- A value other than `null` as an inline suggestion under a tag. -/
def inlineUnder (config : Config) (tag : Option String) (v : Value) : Option String :=
  match tag with
  | some "string" => inlineString v
  | some "number" => some (literalOf tag (some v))
  | some "integer" => some (literalOf tag (some v))
  | some "boolean" => some (literalOf tag (some v))
  | some "array" =>
    match v with
    | .arr [] => some v.compact
    | .arr _ => within config.inlineMaxArrayLength v.compact
    | _ => none
  | some "object" =>
    match v with
    | .obj [] => some v.compact
    | .obj _ => within config.inlineMaxObjectLength v.compact
    | _ => none
  | _ => within config.inlineMaxLength v.compact

/-- The inline suggestion for a value of a schema. -/
def inlineText (config : Config) (h : Hints) : Option String :=
  match inlineValue h with
  | none => none
  | some .null => some "null"
  | some v => inlineUnder config h.types.head? v

/-! ## 2. The place -/

/-- What follows the last colon of `line`, or all of it if there is none. -/
def afterLastColon (line : List Char) : List Char :=
  (line.reverse.takeWhile (· != ':')).reverse

/-- Whether a line up to the cursor ends with the colon of a property and nothing typed after it. -/
def invitesValue (line : List Char) : Bool :=
  isAfterColon line && allBlank (afterLastColon line)

/-- Whether the line of an index into a document invites a value. -/
def invitesValueAt (text : List Char) (index : Nat) : Bool :=
  invitesValue (afterLastLineFeed (text.take index))

end SchemaAssist.Completion
