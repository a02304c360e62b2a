/-
# Schema documents from metadata

A resource document has two sections.  The section `metadata` is the same for every type; the
section `spec` is laid out by the metadata of the type, each field at the place that its dotted path
names.

Fields are placed one after the other.  On the way to its place a field turns what it finds into
objects, and at its place its keywords are merged over what stands there, so the paths of fields may
be prefixes of each other.  The type of a field is inferred from its default or its recommended
value.

There is also a generic document that fits any resource type.
-/
import SchemaAssist.Resource.Metadata
import SchemaAssist.Schema.Build

namespace SchemaAssist.Resource

open SchemaAssist.Json SchemaAssist.Schema

/-! ## 1. Types of values -/

/-- The type that a sample value suggests: one tag, or a list of them. -/
def inferType : Value → Value
  | .null => .arr [.str "null", .str "string"]
  | .bool _ => .str "boolean"
  | .arr _ => .str "array"
  | .obj _ => .str "object"
  | .int _ => .str "integer"
  | .double d => .str (if d.isIntegral then "integer" else "number")
  | .str _ => .str "string"

/-! ## 2. Fields -/

/-- The keyword that marks fields that have to be supplied. -/
def requiredKeyword : String := "x-f5xc-required"

/-- What the description of a field says when the server fills it in. -/
def serverDefaultNote : String := " (Server provides default value)"

/-- A member that is there only if a value is. -/
def optionalMember (name : String) (v : Option Value) : Members :=
  match v with
  | some v => [(name, v)]
  | none => []

/-- A member that is there only if it is true. -/
def flagMember (name : String) (b : Bool) : Members :=
  if b then [(name, .bool true)] else []

/-- The keywords of a field.  The default and the type come first where a default is given, and last
where they are taken from the recommended value. -/
def fieldKeywords (hints : FieldHints) : Members :=
  (match hints.default with
    | some v => [("default", v), ("type", inferType v)]
    | none => [])
  ++ (if hints.serverDefault then
      [(serverDefaultKeyword, .bool true), ("description", .str serverDefaultNote)]
    else [])
  ++ flagMember requiredKeyword hints.requiredForCreate
  ++ optionalMember recommendedKeyword hints.recommended
  ++ (match hints.default, hints.recommended with
    | none, some v => [("default", v), ("type", inferType v)]
    | _, _ => [])

/-- Members put over others, one after the other. -/
def merge (members new : Members) : Members :=
  new.foldl (fun ms m => Members.put m.1 m.2 ms) members

/-- The schema of an object without properties. -/
def emptyObject : Members :=
  [("type", .str "object"), ("properties", .obj [])]

/-- The members of a schema, which is an object. -/
def schemaMembers (v : Option Value) (otherwise : Members) : Members :=
  (v.bind Value.members?).getD otherwise

/-- A schema turned into that of an object. -/
def asObject (schema : Members) : Members :=
  match Members.find? "type" schema with
  | some (.str "object") => schema
  | _ => Members.put "type" (.str "object") schema

/-- The properties of an object with the keywords of a field merged in at a path. -/
def place (keywords : Members) : List String → Members → Members
  | [], properties => properties
  | [leaf], properties =>
    let schema := schemaMembers (Members.find? leaf properties) [("type", .str "string")]
    Members.put leaf (.obj (merge schema keywords)) properties
  | part :: path, properties =>
    let schema := asObject (schemaMembers (Members.find? part properties) emptyObject)
    let inner := schemaMembers (Members.find? "properties" schema) []
    Members.put part (.obj (Members.put "properties" (.obj (place keywords path inner)) schema))
      properties

/-! ## 3. Sections -/

/-- The parts of a dotted path below `spec`, if it lies there. -/
def specPath? (dotted : String) : Option (List String) :=
  let head := "spec.".toList
  if head.isPrefixOf dotted.toList then
    some (((dotted.toList.drop head.length).splitOn '.').map String.ofList)
  else none

/-- The properties of the section `spec`. -/
def specProperties (fields : List (String × FieldHints)) : Members :=
  fields.foldl
    (fun properties field =>
      match specPath? field.1 with
      | some path => place (fieldKeywords field.2) path properties
      | none => properties)
    []

/-- The names that the section `spec` requires: the first parts of the required paths, once each. -/
def specRequired : List String → List Value → Except MetadataError (List String)
  | names, [] => .ok names
  | names, .str dotted :: rest =>
    match specPath? dotted with
    | some (top :: _) =>
      specRequired (if top.isEmpty || names.contains top then names else names ++ [top]) rest
    | _ => specRequired names rest
  | _, _ :: _ => .error .wrongShape

/-- The section `spec` of a resource type. -/
def specSection (info : TypeInfo) : Except MetadataError Value := do
  let required ← specRequired [] info.userRequired
  return .obj <|
    [("type", .str "object"),
     ("description", .str (info.displayName ++ " specification")),
     ("properties", .obj (specProperties info.fields)),
     ("additionalProperties", .bool true)]
    ++ (if required.isEmpty then [] else [("required", .arr (required.map .str))])

/-- The keywords of a property with a type and a description. -/
def described (type description : String) (more : Members) : Value :=
  .obj ([("type", .str type), ("description", .str description)] ++ more)

/-- The keywords of a map from strings to strings that is empty at first. -/
def stringMap (description : String) : Value :=
  described "object" description
    [("additionalProperties", .obj [("type", .str "string")]), (recommendedKeyword, .obj [])]

/-- The section `metadata`, the same for every resource type. -/
def metadataSection : Value :=
  described "object" "Resource metadata containing identification and organizational information"
    [("properties", .obj
      [("name", described "string"
          "Resource name (required). Must be unique within the namespace."
          [(requiredKeyword, .bool true)]),
       ("namespace", described "string" "Namespace where the resource resides."
          [(recommendedKeyword, .str "default")]),
       ("labels", stringMap "Key-value labels for organizing and selecting resources."),
       ("annotations", stringMap "Key-value annotations for storing non-identifying metadata."),
       ("description", described "string" "Human-readable description of the resource." []),
       ("disable", described "boolean" "Set to true to disable this resource."
          [("default", .bool false)])]),
     ("required", .arr [.str "name"])]

/-! ## 4. Documents -/

/-- The identifier of a schema document. -/
def schemaUri (type : String) : String :=
  "f5xc-schema://schemas/" ++ type ++ ".json"

/-- A schema document with its two sections. -/
def schemaDocument (type title description : String) (spec : Value) : Value :=
  .obj [
    ("$schema", .str "http://json-schema.org/draft-07/schema#"),
    ("$id", .str (schemaUri type)),
    ("title", .str title),
    ("description", .str description),
    ("type", .str "object"),
    ("properties", .obj [("metadata", metadataSection), ("spec", spec)]),
    ("required", .arr [.str "metadata", .str "spec"])]

/-- The schema document of a resource type. -/
def generate (type : String) (info : TypeInfo) : Except MetadataError Value :=
  (specSection info).map fun spec =>
    schemaDocument type ("F5 XC " ++ info.displayName) info.description spec

/-- The schema document that fits any resource type. -/
def genericDocument : Value :=
  schemaDocument "generic" "F5 XC Resource" "Generic schema for F5 Distributed Cloud resources" <|
    described "object" "Resource specification" [("additionalProperties", .bool true)]

end SchemaAssist.Resource
