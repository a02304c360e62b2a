/-
# The items of each kind of position

An `Engine` is set up with its settings and the markup of the editor.  Three kinds of position in a
document have items:

- `rootItems`: at the root, the whole document and each of its sections;
- `propertyItems`: at a member position of an object, its properties;
- `valueItems`: in the value position of a property, templates for its value and its enum members.
-/
import SchemaAssist.Completion.Item
import SchemaAssist.Template.Member

namespace SchemaAssist.Completion

open SchemaAssist.Json SchemaAssist.Schema SchemaAssist.Template

/-! ## 1. The engine -/

/-- What an engine is set up with. -/
structure Engine where
  config : Config := {}
  markup : Markup := .tabstop

namespace Engine

/-- A template as this engine spells it. -/
def spell (e : Engine) (pieces : List Piece) : String :=
  render e.markup pieces

/-! ## 2. At the root -/

/-- The item for the whole document. -/
def documentItem (e : Engine) (root : Node) (indent : String) : Item where
  label := "Full resource template"
  kind := .snippet
  insertText := e.spell (documentTemplate e.config e.markup root indent)
  isSnippet := e.markup.isSnippet
  sortText := "0"
  detail := "Complete resource template"
  documentation := "Complete resource structure with metadata and spec"

/-- The item for a section of the document. -/
def sectionItem (e : Engine) (indent name : String) (child : Node) : Item where
  label := name ++ " section"
  kind := .snippet
  insertText := e.spell (
    if child.isObject then sectionTemplate e.config name child indent
    else memberTemplate e.config name child indent)
  isSnippet := e.markup.isSnippet
  sortText := "1-" ++ name
  detail := name ++ " section template"
  documentation := child.hints.description.getD ""

/-- The items at the root of a document. -/
def rootItems (e : Engine) (root : Node) (indent : String) : List Item :=
  e.documentItem root indent :: root.children.map fun m => e.sectionItem indent m.1 m.2

/-! ## 3. At a member position -/

/-- What is shown of a property at length. -/
def propertyDocumentation (h : Hints) (required : Bool) : String :=
  String.intercalate "\n\n" <|
    (match h.description with
      | some text => if text.isEmpty then [] else [text]
      | none => [])
    ++ (if required then ["**Required**"] else [])
    ++ (match h.recommended with
      | some v => ["Recommended: \x60" ++ v.compact ++ "\x60"]
      | none => [])
    ++ (if h.serverDefault then ["*Server provides default*"] else [])

/-- The rank of a property in the list: required ones come first, recommended ones next. -/
def propertyRank (h : Hints) (required : Bool) : String :=
  if required then "0" else if h.hasRecommended then "1" else "2"

/-- The item for a property. -/
def propertyItem (e : Engine) (indent name : String) (child : Node) (required : Bool) : Item where
  label := name
  kind := .property
  insertText := e.spell (memberTemplate e.config name child indent)
  isSnippet := e.markup.isSnippet
  sortText := propertyRank child.hints required ++ "-" ++ name
  detail := (if required then "required, " else "") ++ String.intercalate "|" child.hints.types
  documentation := propertyDocumentation child.hints required

/-- The items at a member position of an object. -/
def propertyItems (e : Engine) (n : Node) (indent : String) : List Item :=
  n.children.map fun m => e.propertyItem indent m.1 m.2 (n.requiredNames.contains m.1)

/-! ## 4. In value position -/

/-- The item for an object with the properties that a template shows. -/
def objectItem (e : Engine) (n : Node) (indent : String) : Item where
  label := "Object template"
  kind := .snippet
  insertText := e.spell (objectTemplate e.config n indent e.config.includeOptional)
  isSnippet := e.markup.isSnippet
  sortText := "0"
  detail := "Insert object with required fields"
  documentation := n.hints.description.getD ""

/-- The item for an object with the required properties only. -/
def minimalItem (e : Engine) (n : Node) (indent : String) : Item where
  label := "Minimal template"
  kind := .snippet
  insertText := e.spell (objectTemplate e.config n indent false)
  isSnippet := e.markup.isSnippet
  sortText := "1"
  detail := "Insert object with only required fields"

/-- The items for objects: the full one, and the minimal one where it differs. -/
def objectItems (e : Engine) (n : Node) (indent : String) : List Item :=
  let full := e.objectItem n indent
  let minimal := e.minimalItem n indent
  if minimal.insertText = full.insertText then [full] else [full, minimal]

theorem mem_objectItems_iff {e : Engine} {n : Node} {indent : String} {item : Item} :
    item ∈ e.objectItems n indent ↔ item = e.objectItem n indent ∨ item = e.minimalItem n indent
      ∧ (e.minimalItem n indent).insertText ≠ (e.objectItem n indent).insertText := by
  rw [objectItems]
  split
  · rename_i heq
    simp only [List.mem_singleton, heq, ne_eq, not_true, and_false, or_false]
  · rename_i hne
    simp only [List.mem_cons, List.not_mem_nil, or_false, ne_eq, hne, not_false_eq_true, and_true]

/-- The item for an empty array. -/
def arrayItem (e : Engine) (indent : String) : Item where
  label := "Array"
  kind := .value
  insertText := e.spell (arrayTemplate e.config indent)
  isSnippet := e.markup.isSnippet
  sortText := "0"
  detail := "Insert empty array"

/-- A position in an enum as a sort key: at least three digits. -/
def positionKey (position : Nat) : String :=
  let digits := Nat.toDigits 10 position
  String.ofList (List.replicate (3 - digits.length) '0' ++ digits)

/-- The item for an enum member at a position. -/
def enumItem (documentation : String) (member : Value) (position : Nat) : Item where
  label := match member with
    | .str s => s
    | v => v.compact
  kind := .enumMember
  insertText := member.text .spaced
  isSnippet := false
  sortText := positionKey position
  detail := "enum value"
  documentation := documentation

/-- The items for the members of an enum. -/
def enumItems (n : Node) : List Item :=
  ((n.hints.enum.getD []).zipIdx).map fun (member, position) =>
    enumItem (n.hints.description.getD "") member position

/-- The items that the structure of a node calls for. -/
def structureItems (e : Engine) (n : Node) (indent : String) : List Item :=
  match n with
  | .object _ (_ :: _) _ => e.objectItems n indent
  | .array _ (some _) => [e.arrayItem indent]
  | _ => []

/-- The items in the value position of a property. -/
def valueItems (e : Engine) (n : Node) (indent : String) : List Item :=
  e.structureItems n indent ++ enumItems n

end Engine

end SchemaAssist.Completion
