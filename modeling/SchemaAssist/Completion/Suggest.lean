/-
# Suggestions at a cursor

What a schema tree suggests at a cursor of a document: the list of completion items, and the inline
suggestion.  Where the cursor stands is decided by its context alone, which makes three cases for
items: the root of the document, a member position, and the value position of a property.
-/
import SchemaAssist.Completion.Engine
import SchemaAssist.Completion.Inline

namespace SchemaAssist.Completion

open SchemaAssist.Cursor SchemaAssist.Schema SchemaAssist.Text

namespace Engine

/-- The completion items for a context. -/
def itemsFor (e : Engine) (root : Node) (context : Context) : List Item :=
  if context.isRoot then e.rootItems root context.indent
  else if context.inObject && !context.afterColon then
    match root.navigate? context.path with
    | some n => e.propertyItems n context.indent
    | none => []
  else
    match context.valuePath?.bind fun path => root.navigate? path with
    | some n => e.valueItems n context.indent
    | none => []

/-- The completion items at the cursor of a document. -/
def items (e : Engine) (root : Node) (text : List Char) (offset : Int) : List Item :=
  e.itemsFor root (Context.ofOffset e.config text offset)

/-- The inline suggestion at the cursor of a document. -/
def inline (e : Engine) (root : Node) (text : List Char) (offset : Int) : Option String :=
  if invitesValueAt text (toIndex e.config.encoding text offset) then
    ((Context.ofOffset e.config text offset).valuePath?.bind fun path => root.navigate? path).bind
      fun n => inlineText e.config n.hints
  else none

end Engine

end SchemaAssist.Completion
