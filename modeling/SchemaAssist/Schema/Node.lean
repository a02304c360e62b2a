/-
# Schema trees

A schema tree describes the shape of a resource document.  A node is a scalar, an object with its
properties in order and the names of those that are required, or an array with the schema that its
elements share.  Every node carries the same hints for editing: type tags, values to suggest, and
text to show.

`Node.navigate?` walks a tree along a path of keys; `Node.properties` lists the properties that an
object template shows.
-/
import SchemaAssist.Json.Value

namespace SchemaAssist.Schema

open SchemaAssist.Json

/-! ## 1. The type -/

/-- What a schema says of a value apart from its structure. -/
structure Hints where
  /-- The declared type tags; the first one is primary. -/
  types : List String
  default : Option Value := none
  description : Option String := none
  /-- The value suggested to authors; it goes before the default. -/
  recommended : Option Value := none
  /-- The server fills the value in where it is left out. -/
  serverDefault : Bool := false
  enum : Option (List Value) := none

/-- A node of a schema tree. -/
inductive Node where
  | scalar (hints : Hints)
  /-- An object: its properties and the names of the required ones, both in order. -/
  | object (hints : Hints) (properties : List (String × Node)) (required : List String)
  /-- An array and the schema of its elements, if it declares one. -/
  | array (hints : Hints) (items : Option Node)

namespace Hints

/-- The primary type tag; a node without tags counts as a string. -/
def primaryType (h : Hints) : String :=
  h.types.head?.getD "string"

/-- The value to suggest: the recommended one, else the default. -/
def suggested (h : Hints) : Option Value :=
  h.recommended <|> h.default

/-- Whether a recommended value is declared. -/
def hasRecommended (h : Hints) : Bool :=
  h.recommended.isSome

end Hints

namespace Node

/-- The hints of a node. -/
def hints : Node → Hints
  | scalar h => h
  | object h _ _ => h
  | array h _ => h

/-- The properties of an object; other nodes have none. -/
def children : Node → List (String × Node)
  | object _ properties _ => properties
  | _ => []

/-- The names of the required properties of an object. -/
def requiredNames : Node → List String
  | object _ _ required => required
  | _ => []

/-- The node is an object. -/
def isObject : Node → Bool
  | object .. => true
  | _ => false

/-! ## 2. Navigation -/

/-- The node below a node at one segment of a path: the property of that name, or the schema of the
elements of an array whatever the segment says. -/
def child? : Node → String → Option Node
  | object _ properties _, segment => Members.find? segment properties
  | array _ items, _ => items
  | scalar _, _ => none

/-- The node at the end of a path. -/
def navigate? (n : Node) : List String → Option Node
  | [] => some n
  | segment :: path => (n.child? segment).bind fun m => m.navigate? path

@[simp] theorem navigate?_nil (n : Node) : n.navigate? [] = some n := rfl

theorem navigate?_cons (n : Node) (segment : String) (path : List String) :
    n.navigate? (segment :: path) = (n.child? segment).bind fun m => m.navigate? path := rfl

end Node

/-! ## 3. The properties of a template -/

/-- A property that an object template shows. -/
structure Property where
  name : String
  required : Bool
  hints : Hints

/-- The value to suggest for a property. -/
def Property.value (p : Property) : Option Value :=
  p.hints.suggested

/-- The required properties of a node, in the order in which they are required; names without a
schema are left out. -/
def Node.requiredProperties (n : Node) : List Property :=
  n.requiredNames.filterMap fun name =>
    (Members.find? name n.children).map fun child => ⟨name, true, child.hints⟩

/-- The properties of a node that are not required and have a recommended value, in order. -/
def Node.recommendedProperties (n : Node) : List Property :=
  (n.children.filter fun m => !n.requiredNames.contains m.1 && m.2.hints.hasRecommended).map
    fun m => ⟨m.1, false, m.2.hints⟩

/-- The properties that an object template shows: the required ones, and after them the recommended
ones if they are asked for. -/
def Node.properties (n : Node) (includeOptional : Bool) : List Property :=
  n.requiredProperties ++ if includeOptional then n.recommendedProperties else []

end SchemaAssist.Schema
