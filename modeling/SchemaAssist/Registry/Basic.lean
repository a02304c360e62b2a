/-
# The registry of schema trees

The registry serves the schema trees of resource types.  It asks its loader for the document of a
type, builds the tree, and keeps both as long as there is room; while they are kept, the loader is
not asked again.

Every operation is a function from a registry to an `Outcome`: the answer or the error, the registry
afterwards, and the calls of the loader that it took.  A lookup that fails or finds no document
leaves the entries of the registry as they were.
-/
import SchemaAssist.Completion.Suggest
import SchemaAssist.Registry.Loader
import SchemaAssist.Registry.Recent

namespace SchemaAssist

open SchemaAssist.Completion SchemaAssist.Json SchemaAssist.Resource SchemaAssist.Schema

namespace Registry

/-! ## 1. The type -/

/-- A document that was looked up, and its tree. -/
structure Entry where
  document : Value
  root : Node

/-- Why an operation fails. -/
inductive Failure where
  | load (e : LoadError)
  | build (e : BuildError)
  /-- There is no room for any entry. -/
  | noRoom
  /-- The document that is completed has no proper URI. -/
  | uri (e : UriError)
  deriving DecidableEq, Repr

/-- The text of the error, where it has one. -/
def Failure.message? : Failure → Option String
  | .load _ => none
  | .build e => e.message?
  | .noRoom => some "value too large"
  | .uri e => e.message?

end Registry

/-- A registry of schema trees. -/
structure Registry where
  loader : Registry.Loader
  /-- The types that the registry is known to serve. -/
  types : List String
  cache : Registry.Recent Registry.Entry
  /-- The entry of the document that fits any type, once it was asked for. -/
  generic : Option Registry.Entry := none
  /-- The files of the directory that the loader may read. -/
  files : Registry.Files := []
  /-- The types that loaders were asked for so far, the last one first. -/
  asked : List String := []

namespace Registry

/-- How many entries a registry has room for unless it is told otherwise. -/
def defaultCapacity : Nat := 128

/-- A registry over ready-made documents. -/
def ofSchemas (schemas : Members) (capacity : Nat) : Registry where
  loader := .ofSchemas schemas
  types := Members.names schemas
  cache := { capacity }

/-- A registry that generates documents from the metadata of resource types. -/
def ofTypes (infos : List (String × TypeInfo)) (capacity : Nat) : Registry where
  loader := .ofTypes infos
  types := Members.names infos
  cache := { capacity }

/-- A registry over the files of a directory, which serves the types that are there now. -/
def ofFiles (files : Files) (capacity : Nat) : Registry where
  loader := .ofFiles
  types := typesOfFiles files
  cache := { capacity }
  files := files

/-! ## 2. Outcomes -/

/-- A call of a loader: which one is asked, for which type, and what it can see. -/
structure Call where
  loader : Loader
  files : Files
  /-- The types that were asked for before. -/
  asked : List String
  type : String

/-- What the loader answers. -/
def Call.answer (c : Call) : LoadResult :=
  c.loader c.files c.asked c.type

/-- What an operation leads to. -/
structure Outcome (α : Type) where
  result : Except Failure α
  /-- The registry afterwards. -/
  registry : Registry
  calls : List Call := []

namespace Outcome

variable {α β : Type}

/-- An outcome with its answer changed. -/
def map (f : α → β) (o : Outcome α) : Outcome β :=
  { o with result := o.result.map f }

/-- An outcome and what follows it, unless it is a failure. -/
def andThen (o : Outcome α) (next : α → Registry → Outcome β) : Outcome β :=
  match o.result with
  | .error e => { o with result := .error e }
  | .ok a =>
    let o' := next a o.registry
    { o' with calls := o.calls ++ o'.calls }

end Outcome

/-- An outcome without effect on the registry. -/
def answer {α : Type} (r : Registry) (a : α) : Outcome α where
  result := .ok a
  registry := r

/-- A failure without effect on the registry. -/
def fail {α : Type} (r : Registry) (e : Failure) (calls : List Call := []) : Outcome α where
  result := .error e
  registry := r
  calls := calls

/-! ## 3. Lookups -/

/-- The entry that an answer of a loader leads to. -/
def entryOf : LoadResult → Except Failure (Option Entry)
  | .error e => .error (.load e)
  | .ok none => .ok none
  | .ok (some document) =>
    match Schema.build document with
    | .error e => .error (.build e)
    | .ok root => .ok (some { document, root })

/-- The call by which a registry asks its loader for a type. -/
def callFor (r : Registry) (type : String) : Call where
  loader := r.loader
  files := r.files
  asked := r.asked
  type := type

/-- The entry of a type: the one that is kept, or a new one from the loader. -/
def lookup (r : Registry) (type : String) : Outcome (Option Entry) :=
  match r.cache.find? type with
  | some entry => { r with cache := r.cache.use type }.answer (some entry)
  | none =>
    let call := r.callFor type
    let r := { r with asked := type :: r.asked }
    match entryOf call.answer with
    | .error e => r.fail e [call]
    | .ok none => { result := .ok none, registry := r, calls := [call] }
    | .ok (some entry) =>
      match r.cache.insert? type entry with
      | none => r.fail .noRoom [call]
      | some cache => { result := .ok (some entry), registry := { r with cache }, calls := [call] }

/-- The tree of a type. -/
def get (r : Registry) (type : String) : Outcome (Option Node) :=
  (r.lookup type).map fun entry => entry.map (·.root)

/-- The document of a type. -/
def document (r : Registry) (type : String) : Outcome (Option Value) :=
  (r.lookup type).map fun entry => entry.map (·.document)

/-- The entry of the document that fits any type: the one that is kept, or a new one. -/
def genericEntry (r : Registry) : Outcome Entry :=
  match r.generic with
  | some entry => r.answer entry
  | none =>
    match Schema.build genericDocument with
    | .error e => r.fail (.build e)
    | .ok root =>
      let entry := { document := genericDocument, root }
      { r with generic := some entry }.answer entry

/-- The published text of the document of a type; the generic document stands in for types without
one. -/
def content (r : Registry) (type : String) : Outcome String :=
  let published (entry : Entry) := entry.document.text .published
  if type = genericName then r.genericEntry.map published
  else (r.lookup type).andThen fun entry r =>
    match entry with
    | some entry => r.answer (published entry)
    | none => r.genericEntry.map published

/-- Whether a type is known or kept. -/
def has (r : Registry) (type : String) : Bool :=
  r.types.contains type || r.cache.contains type

/-- How many types a registry keeps and knows. -/
structure Stats where
  cached : Nat
  available : Nat
  deriving DecidableEq, Repr

/-- How many types the registry keeps and knows. -/
def stats (r : Registry) : Stats where
  cached := r.cache.entries.length
  available := r.types.length

/-- Looks up types one after the other, up to the first failure. -/
def prewarm (r : Registry) : List String → Outcome Unit
  | [] => r.answer ()
  | type :: rest => (r.lookup type).andThen fun _ r => r.prewarm rest

/-! ## 4. Changes -/

/-- The registry without the entries that were kept. -/
def clear (r : Registry) : Registry :=
  { r with cache := r.cache.clear, generic := none }

/-- The registry without the entries that were kept, with another loader and other types where they
are given. -/
def refresh (r : Registry) (loader : Option Loader) (types : Option (List String)) : Registry :=
  { r with
    loader := loader.getD r.loader
    types := types.getD r.types
    cache := r.cache.clear
    generic := none }

/-- The registry after a file of the directory was written; what is kept stays. -/
def write (r : Registry) (name text : String) : Registry :=
  { r with files := Members.put name text r.files }

/-- The registry after a file of the directory was deleted; what is kept stays. -/
def delete (r : Registry) (name : String) : Registry :=
  { r with files := r.files.filter (·.1 != name) }

/-! ## 5. Documents that are edited -/

/-- The type of the document at a URI, if it is a resource document of a type that can be told. -/
def typeFor (types : List String) (uri language : String) : Except UriError (Option String) :=
  match isResourceDocument types language uri.toList with
  | .error e => .error e
  | .ok false => .ok none
  | .ok true => detectType types uri.toList

/-- The tree that applies to the document at a URI. -/
def schemaFor (r : Registry) (uri language : String) : Outcome (Option Node) :=
  match typeFor r.types uri language with
  | .error e => r.fail (.uri e)
  | .ok none => r.answer none
  | .ok (some type) => r.get type

/-- The completion items at the cursor of the document at a URI. -/
def complete (r : Registry) (engine : Engine) (uri language : String) (text : List Char)
    (offset : Int) : Outcome (List Item) :=
  (r.schemaFor uri language).map fun root =>
    match root with
    | some n => engine.items n text offset
    | none => []

/-- The inline suggestion at the cursor of the document at a URI. -/
def inline (r : Registry) (engine : Engine) (uri language : String) (text : List Char)
    (offset : Int) : Outcome (Option String) :=
  (r.schemaFor uri language).map fun root => root.bind fun n => engine.inline n text offset

end Registry

end SchemaAssist
