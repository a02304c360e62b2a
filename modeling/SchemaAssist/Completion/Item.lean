/-
# Completion items

What the engine offers at a cursor is a list of items.  An item has a label to show, a text to
insert in place of what is being typed, and keys by which the editor sorts and annotates the list.
Items know nothing of the editor: its integration turns them into objects of its own.
-/

namespace SchemaAssist.Completion

/-- What an item inserts: a template with several fields, a member of an object, the skeleton of a
value, or one of the values that an enum lists. -/
inductive ItemKind where
  | snippet
  | property
  | value
  | enumMember
  deriving DecidableEq, Repr

/-- The name of a kind. -/
def ItemKind.name : ItemKind → String
  | snippet => "snippet"
  | property => "property"
  | value => "value"
  | enumMember => "enum_member"

/-- Something offered at a cursor. -/
structure Item where
  label : String
  kind : ItemKind
  insertText : String
  isSnippet : Bool
  sortText : String
  detail : String
  documentation : String := ""
  deriving DecidableEq, Repr

end SchemaAssist.Completion
