/-
# The literal that stands for a value

What a template inserts for a value is JSON source text, chosen by the primary type tag of the
schema and not by the value alone:

- under `string` every value becomes a string literal;
- under `number`, `integer` and `boolean` it becomes its plain text, an integral double without its
  fraction;
- under `array` and `object` it is laid out over several lines, and a value of another kind becomes
  the empty container;
- under any other tag it is written on one line.

Without a tag the value chooses one.  The value `null` is always written as such, and where there is
no value at all the literal is the blank of the tag.
-/
import SchemaAssist.Json.Writer

namespace SchemaAssist.Template

open SchemaAssist.Json

/-! ## 1. Tags -/

/-- The literal inserted under a tag where there is no value. -/
def blank (tag : Option String) : String :=
  match tag with
  | some "number" => "0"
  | some "integer" => "0"
  | some "boolean" => "false"
  | some "array" => "[]"
  | some "object" => "\x7b\x7d"
  | _ => "\"\""

/-- The tag that a value chooses where the schema gives none. -/
def chosenTag : Value → String
  | .bool _ => "boolean"
  | .int _ => "number"
  | .double _ => "number"
  | .str _ => "string"
  | .arr _ => "array"
  | .obj _ => "object"
  | .null => "unknown"

/-! ## 2. Literals -/

/-- The plain text of a value: a string as it is, an integral double as the integer. -/
def plainText : Value → String
  | .bool b => String.ofList (boolText b)
  | .int n => String.ofList (integerText n)
  | .double d =>
    if d.isIntegral then String.ofList (integerText d.toInt) else String.ofList (d.text .plain)
  | .str s => s
  | v => v.compact

/-- The literal of a value other than `null` under a tag. -/
def literalUnder (tag : String) (v : Value) : String :=
  match tag with
  | "string" => literal (plainText v)
  | "number" => plainText v
  | "integer" => plainText v
  | "boolean" => plainText v
  | "array" =>
    match v with
    | .arr _ => v.pretty
    | _ => "[]"
  | "object" =>
    match v with
    | .obj _ => v.pretty
    | _ => "\x7b\x7d"
  | _ => v.compact

/-- The literal of a value, if there is one, under a tag, if there is one. -/
def literalOf (tag : Option String) (value : Option Value) : String :=
  match value with
  | none => blank tag
  | some .null => "null"
  | some v => literalUnder (tag.getD (chosenTag v)) v

/-! ## 3. Small facts -/

@[simp] theorem literalOf_null (tag : Option String) : literalOf tag (some .null) = "null" := rfl

end SchemaAssist.Template
