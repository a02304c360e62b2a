/-
# What follows the cursor

The suggestions at a cursor are a matter of the text before it.  The one thing that is read past the
cursor is the indentation of its line, and that only while nothing but indentation stands on the
line before the cursor.

* `Context.ofOffset_append`: the context of a cursor at the end of a text, when the text goes on;
* `suggestions_of_append`: two texts that go on differently have the same context, up to the
  indentation, and the same suggestions.
-/
import SchemaAssist.Completion.Suggest
import SchemaAssist.Proofs.Text.Line
import SchemaAssist.Proofs.Text.Offset

namespace SchemaAssist.Cursor.Context

open SchemaAssist.Text

/-! ## 1. The context -/

/-- The same place on a line that is indented by `indent`. -/
def indented (config : Config) (context : Context) (indent : List Char) : Context :=
  { context with
    indentLevel := indent.length / config.indentUnit
    indent := String.ofList indent }

@[simp] theorem valuePath?_indented (config : Config) (context : Context) (indent : List Char) :
    (context.indented config indent).valuePath? = context.valuePath? := rfl

variable (config : Config) (text rest : List Char)

/-- The offset of the end of a text is that of the text's length, whatever follows. -/
theorem toIndex_append (e : Encoding) :
    toIndex e (text ++ rest) (toOffset e text text.length) = text.length := by
  have hsize : toOffset e text text.length = e.size text := by simp [toOffset]
  rw [hsize, toIndex, Int.toNat_natCast, fitting_append]

/-- **At the end of a text that goes on, the context is that of the text alone**, on a line that may
be indented further. -/
theorem ofOffset_append :
    ofOffset config (text ++ rest) (toOffset config.encoding text text.length)
      = (atIndex config text text.length).indented config
          (leadingIndent (afterLastLineFeed text ++ rest)) := by
  simp only [ofOffset, toIndex_append, atIndex, List.take_left, List.take_length,
    leadingIndent_currentLine_append, indented]

end SchemaAssist.Cursor.Context

namespace SchemaAssist.Completion

open SchemaAssist.Cursor SchemaAssist.Schema SchemaAssist.Text

/-! ## 2. Suggestions -/

/-- The inline text at the end of a text that goes on. -/
theorem inline_append (e : Engine) (root : Node) (text rest : List Char) :
    e.inline root (text ++ rest) (toOffset e.config.encoding text text.length)
      = if invitesValue (afterLastLineFeed text) then
          ((Context.atIndex e.config text text.length).valuePath?.bind fun path =>
            root.navigate? path).bind fun n => inlineText e.config n.hints
        else none := by
  simp only [Engine.inline, Context.ofOffset_append, Context.toIndex_append, invitesValueAt,
    List.take_left, Context.valuePath?_indented]

/-- **What follows the cursor does not matter.**  However a text goes on, the context at its end has
the same path, position, containers and property, and the inline text is the same; if the last line
holds anything but indentation, so are the indentation and the completion items. -/
theorem suggestions_of_append (e : Engine) (root : Node) (text rest rest' : List Char) :
    let offset := toOffset e.config.encoding text text.length
    let context := Context.ofOffset e.config (text ++ rest) offset
    let context' := Context.ofOffset e.config (text ++ rest') offset
    (context.path = context'.path ∧ context.afterColon = context'.afterColon
        ∧ context.inObject = context'.inObject ∧ context.inArray = context'.inArray
        ∧ context.propertyName = context'.propertyName)
      ∧ e.inline root (text ++ rest) offset = e.inline root (text ++ rest') offset
      ∧ ((∃ c ∈ afterLastLineFeed text, isIndent c = false) →
          context.indentLevel = context'.indentLevel ∧ context.indent = context'.indent
            ∧ e.items root (text ++ rest) offset = e.items root (text ++ rest') offset) := by
  intro offset context context'
  have hcontext := Context.ofOffset_append e.config text rest
  have hcontext' := Context.ofOffset_append e.config text rest'
  refine ⟨?_, ?_, ?_⟩
  · simp [context, context', offset, hcontext, hcontext', Context.indented]
  · rw [inline_append, inline_append]
  · rintro ⟨c, hc, hindent⟩
    have heq : context = context' := by
      simp only [context, context', offset, hcontext, hcontext',
        leadingIndent_append_of_mem hc hindent]
    refine ⟨by rw [heq], by rw [heq], ?_⟩
    rw [Engine.items, Engine.items]
    exact congrArg (e.itemsFor root) heq

/-- Behind `{ "k": ` it does not matter whether the object ends or a value follows on new lines. -/
theorem suggestions_of_append_member :
    let root : Node := .object { types := ["object"] } [("k", .scalar { types := ["integer"] })] []
    (∃ c ∈ afterLastLineFeed "\x7b \"k\": ".toList, isIndent c = false)
      ∧ Engine.items {} root ("\x7b \"k\": ".toList ++ "\x7d".toList) 7
        = Engine.items {} root ("\x7b \"k\": ".toList ++ "\r\n\t5\x7d".toList) 7 := by
  have hline : ∃ c ∈ afterLastLineFeed "\x7b \"k\": ".toList, isIndent c = false :=
    ⟨':', by decide, by decide⟩
  intro root
  exact ⟨hline, ((suggestions_of_append {} root _ _ _).2.2 hline).2.2⟩

/-- A line of spaces alone is indented further by what follows. -/
example :
    leadingIndent (currentLine ("  ".toList ++ "\t5".toList) 2)
      ≠ leadingIndent (currentLine ("  ".toList ++ "5".toList) 2) := by
  decide

end SchemaAssist.Completion
