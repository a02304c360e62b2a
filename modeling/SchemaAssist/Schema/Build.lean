/-
# From schema documents to schema trees

A schema document is a JSON object with the keywords of JSON Schema.  Its structure decides the kind
of node: an object if it has `properties` or its primary type is `object`, an array if its primary
type is `array`, a scalar otherwise.  A type that is not declared is inferred from the keywords.

Two keywords of the vendor carry hints for editing: a recommended value, and a mark on values that
the server fills in.

Malformed keywords are absorbed, with one exception: the required names of an object come from
walking over a value, and a value that cannot be walked over makes the whole document unusable.
`Node.ofSchema` is the tree with such a list of names taken as empty, `hasReadableRequired` says
that there is none, and `build` puts the two together.
-/
import SchemaAssist.Schema.Node

namespace SchemaAssist.Schema

open SchemaAssist.Json

/-! ## 1. Keywords -/

/-- The keyword of the recommended value. -/
def recommendedKeyword : String := "x-f5xc-recommended-value"

/-- The keyword that marks values that the server fills in. -/
def serverDefaultKeyword : String := "x-f5xc-server-default"

/-- The type tags of a schema that declares none. -/
def inferredTypes (schema : Members) : List String :=
  if (Members.find? "properties" schema).isSome then ["object"]
  else if (Members.find? "items" schema).isSome then ["array"]
  else ["string"]

/-- The type tags of a schema: the declared tag, or the strings among the declared tags. -/
def typeTags (schema : Members) : List String :=
  match Members.find? "type" schema with
  | some (.str tag) => [tag]
  | some (.arr tags) =>
    let tags := tags.filterMap Value.string?
    if tags.isEmpty then inferredTypes schema else tags
  | _ => inferredTypes schema

/-- The hints of a schema. -/
def Hints.ofSchema (schema : Members) : Hints where
  types := typeTags schema
  default := Members.find? "default" schema
  description := (Members.find? "description" schema).bind Value.string?
  recommended := Members.find? recommendedKeyword schema
  serverDefault := ((Members.find? serverDefaultKeyword schema).map Value.isTruthy).getD false
  enum :=
    match Members.find? "enum" schema with
    | some (.arr values) => some values
    | _ => none

/-- The hints of a schema that is no object, such as `true`. -/
def Hints.untyped : Hints where
  types := []

/-- Whether a schema describes an object. -/
def describesObject (schema : Members) : Bool :=
  (Members.find? "properties" schema).isSome || (typeTags schema).head? == some "object"

/-- Whether a schema that describes no object describes an array. -/
def describesArray (schema : Members) : Bool :=
  (typeTags schema).head? == some "array"

/-- The schemas of the properties of a schema; what is no object declares none. -/
def propertySchemas (schema : Members) : Members :=
  match Members.find? "properties" schema with
  | some (.obj properties) => properties
  | _ => []

/-- The schema of the elements of an array: the declared one, or the first of a list of them. -/
def itemSchema? (schema : Members) : Option Value :=
  match Members.find? "items" schema with
  | some .null => none
  | some (.arr []) => none
  | some (.arr (.null :: _)) => none
  | some (.arr (v :: _)) => some v
  | some v => some v
  | none => none

/-- The names that a schema requires: the strings that walking over the keyword yields, or `none` if
it cannot be walked over. -/
def requiredNames? (schema : Members) : Option (List String) :=
  match Members.find? "required" schema with
  | none => some []
  | some v => v.optionalElements?.map fun names => names.filterMap Value.string?

/-! ## 2. Parts are smaller than the whole -/

theorem sizeOf_propertySchemas_lt (schema : Members) :
    sizeOf (propertySchemas schema) < sizeOf (Value.obj schema) := by
  unfold propertySchemas
  split
  · rename_i properties h
    have := Value.sizeOf_lt_of_find? h
    simp only [Value.obj.sizeOf_spec] at this ⊢
    omega
  · simp only [Value.obj.sizeOf_spec, List.nil.sizeOf_spec]
    have : 0 < sizeOf schema := by
      cases schema
      · rw [List.nil.sizeOf_spec]; omega
      · rw [List.cons.sizeOf_spec]; omega
    omega

theorem sizeOf_itemSchema_lt {schema : Members} {v : Value} (h : itemSchema? schema = some v) :
    sizeOf v < sizeOf (Value.obj schema) := by
  unfold itemSchema? at h
  simp only [Value.obj.sizeOf_spec]
  split at h
  · simp at h
  · simp at h
  · simp at h
  · rename_i hf
    have := Value.sizeOf_lt_of_find? hf
    simp only [Value.arr.sizeOf_spec, List.cons.sizeOf_spec] at this
    simp only [Option.some.injEq] at h
    subst h
    omega
  · rename_i hf
    have := Value.sizeOf_lt_of_find? hf
    simp only [Option.some.injEq] at h
    subst h
    omega
  · simp at h

/-! ## 3. The tree -/

namespace Node

mutual

/-- The tree of a schema; a schema that is no object becomes a scalar without type tags, and
required names that cannot be read count as none. -/
def ofSchema : Value → Node
  | .obj schema =>
    let hints := Hints.ofSchema schema
    if describesObject schema then
      .object hints (ofProperties (propertySchemas schema)) ((requiredNames? schema).getD [])
    else if describesArray schema then
      match _ : itemSchema? schema with
      | some items => .array hints (some (ofSchema items))
      | none => .array hints none
    else .scalar hints
  | _ => .scalar Hints.untyped
termination_by v => sizeOf v
decreasing_by
  · exact sizeOf_propertySchemas_lt schema
  · exact sizeOf_itemSchema_lt ‹_›

/-- The trees of a list of properties. -/
def ofProperties : Members → List (String × Node)
  | [] => []
  | (name, schema) :: rest => (name, ofSchema schema) :: ofProperties rest
termination_by ms => sizeOf ms

end

end Node

mutual

/-- Whether the required names of every object that the tree of a schema visits can be read. -/
def hasReadableRequired : Value → Bool
  | .obj schema =>
    if describesObject schema then
      haveReadableRequired (propertySchemas schema) && (requiredNames? schema).isSome
    else if describesArray schema then
      match _ : itemSchema? schema with
      | some items => hasReadableRequired items
      | none => true
    else true
  | _ => true
termination_by v => sizeOf v
decreasing_by
  · exact sizeOf_propertySchemas_lt schema
  · exact sizeOf_itemSchema_lt ‹_›

/-- Whether the required names can be read in every one of a list of properties. -/
def haveReadableRequired : Members → Bool
  | [] => true
  | (_, schema) :: rest => hasReadableRequired schema && haveReadableRequired rest
termination_by ms => sizeOf ms

end

/-! ## 4. Building -/

/-- Why a document is no schema that a tree can be built from. -/
inductive BuildError where
  /-- The document is no object but a value of this kind. -/
  | notObject (kind : Kind)
  | unreadableRequired
  deriving DecidableEq, Repr

/-- What messages call the type of a value of a kind. -/
def typeName : Kind → String
  | .null => "NoneType"
  | .bool => "bool"
  | .int => "int"
  | .double => "float"
  | .str => "str"
  | .arr => "list"
  | .obj => "dict"

/-- The text of the error, where it has one. -/
def BuildError.message? : BuildError → Option String
  | .notObject kind => some ("Schema must be a mapping, got <class '" ++ typeName kind ++ "'>")
  | .unreadableRequired => none

/-- The tree of a schema document. -/
def build (document : Value) : Except BuildError Node :=
  match document with
  | .obj _ =>
    if hasReadableRequired document then .ok (Node.ofSchema document)
    else .error .unreadableRequired
  | _ => .error (.notObject document.kind)

end SchemaAssist.Schema
