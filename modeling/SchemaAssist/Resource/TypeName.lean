/-
# The resource type of a document

Which resource type a document belongs to is read off its URI, by one of two conventions:

- a URI of the resource scheme names the type by its third segment, the authority counting as a
  segment: `f5xc://profile/namespace/type/name.json`;
- a file names its type before the extension, `name.type.json`, or is named by a known type alone,
  `type.json`.

A text without a scheme is a file, and so is one with a scheme of a single letter, which is a drive.
-/
import SchemaAssist.Resource.Uri

namespace SchemaAssist.Resource

/-! ## 1. File names -/

/-- Whether a character can be part of a type in a file name. -/
def isTypeChar (c : Char) : Bool := ('a' ≤ c && c ≤ 'z') || c == '_'

/-- The last component of a path, which is empty for the root; a backslash separates components too,
and a single point is no component. -/
def fileName (path : List Char) : List Char :=
  let components := (path.map fun c => if c = '\\' then '/' else c).splitOn '/'
  ((components.filter fun part => part != [] && part != ['.']).getLast?).getD []

/-- A file name without its extension `.json`; a line feed after the extension is ignored. -/
def stem? (name : List Char) : Option (List Char) :=
  let extension := "nosj.".toList
  let reversed := name.reverse
  let reversed := if reversed.head? == some '\n' then reversed.drop 1 else reversed
  if extension.isPrefixOf reversed then some (reversed.drop extension.length).reverse else none

/-- The type that stands after the last point of a stem. -/
def dottedType? (stem : List Char) : Option (List Char) :=
  let type := (stem.reverse.takeWhile isTypeChar).reverse
  match stem.reverse.dropWhile isTypeChar with
  | '.' :: _ => if type.isEmpty then none else some type
  | _ => none

/-- The type of a file, if its name gives one; a stem that is a type by itself has to be known. -/
def typeOfFile (known : List String) (path : List Char) : Option String :=
  match stem? (fileName path) with
  | none => none
  | some stem =>
    match dottedType? stem with
    | some type => some (String.ofList type)
    | none =>
      if !stem.isEmpty && stem.all isTypeChar && known.contains (String.ofList stem) then
        some (String.ofList stem)
      else none

/-! ## 2. URIs -/

/-- The scheme of resource documents. -/
def resourceScheme : List Char := "f5xc".toList

/-- The scheme of files. -/
def fileScheme : List Char := "file".toList

/-- The segments of a URI, the authority first; empty ones are left out and escapes decoded. -/
def Uri.segments (uri : Uri) : List (List Char) :=
  (((uri.authority ++ '/' :: uri.path).splitOn '/').filter (!·.isEmpty)).map unquote

/-- The type that a URI of the resource scheme names; a name has to follow it. -/
def Uri.namedType? (uri : Uri) : Option String :=
  match uri.segments with
  | _ :: _ :: type :: _ :: _ => some (String.ofList type)
  | _ => none

/-- The resource type of the document at a URI. -/
def detectType (known : List String) (text : List Char) : Except UriError (Option String) :=
  match Uri.split text with
  | .error e => .error e
  | .ok uri =>
    .ok <|
      if uri.scheme = resourceScheme then uri.namedType?
      else if uri.scheme = fileScheme then typeOfFile known (unquote uri.path)
      else if uri.scheme.length ≤ 1 then typeOfFile known text
      else none

/-! ## 3. Documents that are completed -/

/-- Whether a text ends with the extension of JSON files. -/
def hasJsonExtension (text : List Char) : Bool :=
  ".json".toList.isSuffixOf text

/-- Whether the document at a URI is completed: a JSON document with a resource type. -/
def isResourceDocument (known : List String) (language : String) (text : List Char) :
    Except UriError Bool :=
  if language != "json" then .ok false
  else
    match Uri.split text with
    | .error e => .error e
    | .ok uri =>
      if uri.scheme = resourceScheme then .ok true
      else if !hasJsonExtension text then .ok false
      else
        match detectType known text with
        | .error e => .error e
        | .ok type => .ok type.isSome

end SchemaAssist.Resource
