/-
# String literals before the cursor

Every analysis of the text before the cursor has to know which of its characters lie inside a string
literal.  One character moves the reader between three states: outside a literal, inside one, and
inside one right after a backslash, where the next character is taken as it is.
-/

namespace SchemaAssist.Cursor

/-- Where a place in a text lies with respect to string literals. -/
inductive Quote where
  | outside
  | inside
  /-- Inside a literal, after a backslash. -/
  | escaped
  deriving DecidableEq, Repr, Inhabited

namespace Quote

/-- The state after one more character. -/
def step : Quote → Char → Quote
  | .outside, c => if c = '"' then .inside else .outside
  | .inside, c => if c = '\\' then .escaped else if c = '"' then .outside else .inside
  | .escaped, _ => .inside

/-- The state after a text. -/
def after (q : Quote) (text : List Char) : Quote :=
  text.foldl step q

/-- Whether a literal is open. -/
def isOpen : Quote → Bool
  | .outside => false
  | _ => true

@[simp] theorem after_nil (q : Quote) : q.after [] = q := rfl

@[simp] theorem after_cons (q : Quote) (c : Char) (cs : List Char) :
    q.after (c :: cs) = (q.step c).after cs := rfl

theorem after_append (q : Quote) (a b : List Char) : q.after (a ++ b) = (q.after a).after b :=
  List.foldl_append

end Quote

end SchemaAssist.Cursor
