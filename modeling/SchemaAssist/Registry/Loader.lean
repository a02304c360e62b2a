/-
# Where schema documents come from

A loader gives the schema document of a resource type, if it has one.  Documents come ready made,
are generated from the metadata of resource types, or are read from the files of a directory; the
value `null` counts as no document.

A directory is a list of files by name, which may change between two calls of a loader.  It serves
the types whose file `type.json` it holds; the generic document is not one of them.
-/
import SchemaAssist.Json.Reader
import SchemaAssist.Resource.Generate
import SchemaAssist.Resource.TypeName

namespace SchemaAssist.Registry

open SchemaAssist.Json SchemaAssist.Resource

/-! ## 1. Loaders -/

/-- Why a document cannot be loaded. -/
inductive LoadError where
  | badJson
  | metadata (e : MetadataError)
  deriving DecidableEq, Repr

/-- The files of a directory: their names and their texts. -/
abbrev Files := List (String × String)

/-- What a loader answers: a document, none, or an error. -/
abbrev LoadResult := Except LoadError (Option Value)

/-- A source of schema documents.  What it answers for a type may depend on the files that the
directory holds, and on the types that were asked for before, the last one first. -/
abbrev Loader := Files → List String → String → LoadResult

/-- The document that a value is; `null` is none. -/
def documentOf : Value → Option Value
  | .null => none
  | v => some v

/-- A loader of ready-made documents. -/
def Loader.ofSchemas (schemas : Members) : Loader :=
  fun _ _ type => .ok ((Members.find? type schemas).bind documentOf)

/-- A loader that generates documents from metadata. -/
def Loader.ofTypes (infos : List (String × TypeInfo)) : Loader :=
  fun _ _ type =>
    match Members.find? type infos with
    | some info =>
      match generate type info with
      | .ok document => .ok (some document)
      | .error e => .error (.metadata e)
    | none => .ok none

/-! ## 2. Directories -/

/-- The name under which documents that fit any type go. -/
def genericName : String := "generic"

/-- The extension of schema files. -/
def extension : List Char := ".json".toList

/-- The type that a file serves: its name without the extension, unless that leaves nothing. -/
def typeOfName? (name : String) : Option String :=
  let cs := name.toList
  if cs = extension then some name
  else if extension.isSuffixOf cs then some (String.ofList (cs.take (cs.length - extension.length)))
  else none

/-- The types that a directory serves, in the order of their characters. -/
def typesOfFiles (files : Files) : List String :=
  ((files.filterMap fun file => typeOfName? file.1).filter (· != genericName)).mergeSort
    fun a b => !decide (b < a)

/-- The file that serves a type: the last component of `type.json`, unless it lies elsewhere. -/
def fileOfType? (type : String) : Option String :=
  let path := type.toList ++ extension
  if path.head? == some '/' then none
  else
    match (path.splitOn '/').filter fun part => part != [] && part != ['.'] with
    | [name] => some (String.ofList name)
    | _ => none

/-- A loader of the files of the directory. -/
def Loader.ofFiles : Loader :=
  fun files _ type =>
    match (fileOfType? type).bind fun name => Members.find? name files with
    | some text =>
      match Value.read? text.toList with
      | some v => .ok (documentOf v)
      | none => .error .badJson
    | none => .ok none

end SchemaAssist.Registry
