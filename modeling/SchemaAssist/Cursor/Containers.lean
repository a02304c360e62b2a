/-
# Containers that are open at the cursor

How many braces and brackets the text before the cursor leaves open, braces and brackets counted
apart and without regard to how they nest.  Inside string literals they do not count.  Text with
closers in excess has negative depths, which read as "not inside".
-/
import SchemaAssist.Cursor.Quote

namespace SchemaAssist.Cursor

/-- The open containers of a text. -/
structure Containers where
  /-- Opening braces minus closing ones. -/
  braces : Int := 0
  /-- Opening brackets minus closing ones. -/
  brackets : Int := 0
  quote : Quote := .outside
  deriving DecidableEq, Repr

namespace Containers

/-- What a character outside literals adds to the depth of braces. -/
def braceDelta (c : Char) : Int :=
  if c = '{' then 1 else if c = '}' then -1 else 0

/-- What a character outside literals adds to the depth of brackets. -/
def bracketDelta (c : Char) : Int :=
  if c = '[' then 1 else if c = ']' then -1 else 0

/-- The containers after one more character. -/
def step (s : Containers) (c : Char) : Containers where
  braces := if s.quote = .outside then s.braces + braceDelta c else s.braces
  brackets := if s.quote = .outside then s.brackets + bracketDelta c else s.brackets
  quote := s.quote.step c

/-- The containers that a text leaves open. -/
def scan (text : List Char) : Containers :=
  text.foldl step {}

/-- At least one object is open. -/
def inObject (s : Containers) : Bool := 0 < s.braces

/-- At least one array is open. -/
def inArray (s : Containers) : Bool := 0 < s.brackets

/-- A literal is open. -/
def inString (s : Containers) : Bool := s.quote.isOpen

/-- The literal state of the scan is that of the text. -/
theorem quote_foldl_step (text : List Char) (s : Containers) :
    (text.foldl step s).quote = s.quote.after text := by
  induction text generalizing s with
  | nil => rfl
  | cons c cs ih => exact ih (s.step c)

@[simp] theorem scan_nil : scan [] = {} := rfl

theorem scan_concat (text : List Char) (c : Char) :
    scan (text ++ [c]) = (scan text).step c := by
  simp [scan, List.foldl_append]

end Containers

end SchemaAssist.Cursor
