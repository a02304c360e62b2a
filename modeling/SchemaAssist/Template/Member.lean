/-
# Templates of members and objects

The templates that a schema tree gives rise to:

- `fieldRows`: one member per property, numbered fields holding the suggested values;
- `objectTemplate`: an object literal with the properties of a node;
- `arrayTemplate`: an empty array with the cursor inside;
- `memberTemplate`, `sectionTemplate`: a member with its name;
- `documentTemplate`: a whole document, the object sections of its root laid out one level deeper.

Fields are numbered from left to right, and no number is used twice in a template.
-/
import SchemaAssist.Config
import SchemaAssist.Schema.Node
import SchemaAssist.Template.Literal
import SchemaAssist.Template.Piece

namespace SchemaAssist.Template

open SchemaAssist.Json SchemaAssist.Schema

/-! ## 1. Fields -/

/-- The name of a member and its colon, on a line that starts with `indent`. -/
def nameText (indent name : String) : String :=
  indent ++ literal name ++ ": "

/-- The literal that a field for a value of a schema holds. -/
def fieldLiteral (h : Hints) : String :=
  literalOf h.types.head? h.suggested

/-- One row per property, the fields numbered from `start`. -/
def fieldRows (indent : String) (start : Int) : List Property → List (List Piece)
  | [] => []
  | p :: rest =>
    [.text (nameText indent p.name), .field start (fieldLiteral p.hints)]
      :: fieldRows indent (start + 1) rest

/-- The fields of some properties, one on a line, numbered from `start`. -/
def fields (indent : String) (start : Int) (properties : List Property) : List Piece :=
  separated ",\n" (fieldRows indent start properties)

/-- A single field with the value that a node suggests. -/
def valueTemplate (n : Node) (index : Int) : List Piece :=
  [.field index (fieldLiteral n.hints)]

/-! ## 2. Containers -/

/-- Rows inside braces, the closing one indented by `indent`; without rows, an empty object. -/
def braced (indent : String) (rows : List (List Piece)) : List Piece :=
  if rows.isEmpty then [.text "\x7b\x7d"]
  else .text "\x7b\n" :: separated ",\n" rows ++ [.text ("\n" ++ indent ++ "\x7d")]

/-- An object literal with the properties of a node. -/
def objectTemplate (config : Config) (n : Node) (indent : String) (includeOptional : Bool) :
    List Piece :=
  braced indent (fieldRows (indent ++ config.indent) 1 (n.properties includeOptional))

/-- An empty array with the cursor on the line inside. -/
def arrayTemplate (config : Config) (indent : String) : List Piece :=
  [.text ("[\n" ++ indent ++ config.indent), .finalCursor, .text ("\n" ++ indent ++ "]")]

/-! ## 3. Members -/

/-- A member that holds an object with the properties of a node. -/
def sectionTemplate (config : Config) (name : String) (n : Node) (indent : String) : List Piece :=
  .text (nameText "" name) :: objectTemplate config n indent config.includeOptional

/-- A member with the value that its node calls for: an object with properties is laid out, an
array is empty, and anything else is a single field. -/
def memberTemplate (config : Config) (name : String) (n : Node) (indent : String) : List Piece :=
  match n with
  | .object _ (_ :: _) _ => sectionTemplate config name n indent
  | .array _ _ => .text (nameText "" name) :: arrayTemplate config indent
  | _ => .text (nameText "" name) :: valueTemplate n 1

/-! ## 4. Documents -/

/-- A row of a document template for an object section: its properties one level deeper, or nothing
but the cursor if it has none and the cursor is to be placed. -/
def sectionRow (level1 level2 : String) (start : Int) (placeCursor : Bool) (p : Property)
    (inner : List Property) : List Piece :=
  if inner.isEmpty then
    if placeCursor then
      [.text (nameText level1 p.name ++ "\x7b\n" ++ level2), .finalCursor,
        .text ("\n" ++ level1 ++ "\x7d")]
    else [.text (nameText level1 p.name ++ "\x7b\x7d")]
  else
    .text (nameText level1 p.name ++ "\x7b\n") :: fields level2 start inner
      ++ [.text ("\n" ++ level1 ++ "\x7d")]

/-- The rows of a document template, the fields numbered from `start`; `placeCursor` says that the
cursor goes into the first section without fields. -/
def documentRows (config : Config) (root : Node) (level1 level2 : String) :
    Int → Bool → List Property → List (List Piece)
  | _, _, [] => []
  | start, placeCursor, p :: rest =>
    match Members.find? p.name root.children with
    | some (.object h properties required) =>
      let inner := (Node.object h properties required).properties config.includeOptional
      sectionRow level1 level2 start placeCursor p inner
        :: documentRows config root level1 level2 (start + inner.length)
          (placeCursor && !inner.isEmpty) rest
    | _ =>
      [.text (nameText level1 p.name), .field start (fieldLiteral p.hints)]
        :: documentRows config root level1 level2 (start + 1) placeCursor rest

/-- A whole document: the properties of the root, and of its object sections one level deeper.  The
cursor rests in the first section without fields, if the markup shows it. -/
def documentTemplate (config : Config) (markup : Markup) (root : Node) (indent : String) :
    List Piece :=
  let level1 := indent ++ config.indent
  braced indent (documentRows config root level1 (level1 ++ config.indent) 1
    (markup.finalCursor != "") (root.properties config.includeOptional))

end SchemaAssist.Template
