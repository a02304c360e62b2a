/-
# Metadata of resource types

A resource type is described by a record: what it is called, what its fields are, and which fields
users have to supply.  Each field is addressed by a dotted path and carries hints for authors.

Records arrive as JSON and may spell their keys in either of two ways; the one with underscores goes
first.  What a record says of a truth value may be any value, which counts as true or false.  A
record that is no object where members are looked up in it is malformed, and so is a list of
required fields that cannot be walked over.
-/
import SchemaAssist.Json.Shown

namespace SchemaAssist.Resource

open SchemaAssist.Json

/-! ## 1. The types -/

/-- The hints for the author of a field. -/
structure FieldHints where
  default : Option Value := none
  recommended : Option Value := none
  /-- The server fills the value in where it is left out. -/
  serverDefault : Bool := false
  requiredForCreate : Bool := false

/-- The description of a resource type. -/
structure TypeInfo where
  displayName : String
  description : String := ""
  /-- The fields by their dotted paths, in order. -/
  fields : List (String × FieldHints) := []
  /-- The dotted paths that users have to supply; what is no string is refused on use. -/
  userRequired : List Value := []

/-- Why a record is malformed. -/
inductive MetadataError where
  /-- Something is no object, or no string, where one is needed. -/
  | wrongShape
  | unreadableRequired
  deriving DecidableEq, Repr

/-! ## 2. Looking up members -/

/-- The members of a value that has to be an object. -/
def members (v : Value) : Except MetadataError Members :=
  match v with
  | .obj ms => .ok ms
  | _ => .error .wrongShape

/-- The members of an optional part of a record: none where the part is missing or counts as
false. -/
def optionalMembers (part : Option Value) : Except MetadataError Members :=
  match part with
  | some v => if v.isTruthy then members v else .ok []
  | none => .ok []

/-- The value under the first of two names that a record has. -/
def eitherOf (name other : String) (record : Members) : Option Value :=
  Members.find? name record <|> Members.find? other record

/-- Whether an optional part of a record counts as true. -/
def flag (part : Option Value) : Bool :=
  (part.map Value.isTruthy).getD false

/-! ## 3. Reading records -/

/-- The hints of a field from its record. -/
def FieldHints.ofRecord (record : Value) : Except MetadataError FieldHints := do
  let record ← members record
  let requiredFor ← optionalMembers (Members.find? "requiredFor" record)
  return {
    default := Members.find? "default" record
    recommended := eitherOf "recommended_value" "recommendedValue" record
    serverDefault := flag (eitherOf "server_default" "serverDefault" record)
    requiredForCreate :=
      flag (Members.find? "required_for_create" record <|> Members.find? "create" requiredFor) }

/-- The hints of fields from their records. -/
def fieldsOfRecords : Members → Except MetadataError (List (String × FieldHints))
  | [] => .ok []
  | (path, record) :: rest => do
    let hints ← FieldHints.ofRecord record
    let others ← fieldsOfRecords rest
    return (path, hints) :: others

/-- The part of a record that describes the fields: a part of its own, or the record itself. -/
def fieldPart (record : Members) : Except MetadataError Members :=
  match Members.find? "fieldMetadata" record with
  | some v => if v.isTruthy then members v else .ok record
  | none => .ok record

/-- The required fields that a part of a record lists. -/
def userRequiredOf (part : Option Value) : Except MetadataError (List Value) :=
  match part with
  | none => .ok []
  | some v =>
    match v.optionalElements? with
    | some names => .ok names
    | none => .error .unreadableRequired

/-- The description of a resource type from its record. -/
def TypeInfo.ofRecord (record : Value) : Except MetadataError TypeInfo := do
  let record ← members record
  let part ← fieldPart record
  let fields ← fieldsOfRecords (← optionalMembers (Members.find? "fields" part))
  let userRequired ← userRequiredOf (eitherOf "user_required_fields" "userRequiredFields" part)
  return {
    displayName := ((eitherOf "display_name" "displayName" record).map Value.shown).getD ""
    description := ((Members.find? "description" record).map Value.shown).getD ""
    fields
    userRequired }

end SchemaAssist.Resource
