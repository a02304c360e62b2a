/-
# Where the cursor stands

A `Context` gathers what is known of a cursor: the path of keys to it, whether it stands in the
value position of a property and which property that is, whether an object or an array is open, and
the indentation of its line.  It is computed from the text and the offset alone.

The path is taken at a member position wherever an object is open and the cursor is not in value
position; the property is looked for only in value position.
-/
import SchemaAssist.Config
import SchemaAssist.Cursor.Containers
import SchemaAssist.Cursor.ValuePosition
import SchemaAssist.Text.Line

namespace SchemaAssist.Cursor

open SchemaAssist.Text

/-! ## 1. The type -/

/-- Where a cursor stands in a document. -/
structure Context where
  /-- The keys from the root to the cursor, with a placeholder for each array. -/
  path : List String := []
  /-- The cursor is in the value position of a property. -/
  afterColon : Bool := false
  inObject : Bool := false
  inArray : Bool := false
  /-- The property whose value goes at the cursor, if it could be read. -/
  propertyName : Option String := none
  /-- The indentation of the cursor's line in levels, rounded down. -/
  indentLevel : Nat := 0
  indent : String := ""
  deriving DecidableEq, Repr

namespace Context

/-- The cursor is inside no keyed or indexed value. -/
def isRoot (context : Context) : Bool :=
  context.path.isEmpty

/-- The path to the value that goes at the cursor: the path with the property at its end, unless it
is there already; none outside value positions. -/
def valuePath? (context : Context) : Option (List String) :=
  match context.afterColon, context.propertyName with
  | true, some name =>
    if context.path.getLast? = some name then some context.path else some (context.path ++ [name])
  | _, _ => none

/-! ## 2. The context of a cursor -/

/-- The context at an index into a document. -/
def atIndex (config : Config) (text : List Char) (index : Nat) : Context :=
  let before := text.take index
  let afterColon := isAfterColon before
  let containers := Containers.scan before
  let indent := leadingIndent (currentLine text index)
  { path := keyPath before config.keyLookahead (containers.inObject && !afterColon)
    afterColon
    inObject := containers.inObject
    inArray := containers.inArray
    propertyName := if afterColon then propertyName? before else none
    indentLevel := indent.length / config.indentUnit
    indent := String.ofList indent }

/-- The context of the cursor at an editor's offset into a document. -/
def ofOffset (config : Config) (text : List Char) (offset : Int) : Context :=
  atIndex config text (toIndex config.encoding text offset)

end Context

end SchemaAssist.Cursor
