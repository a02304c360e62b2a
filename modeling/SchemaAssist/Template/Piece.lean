/-
# Templates and their markup

A template is a sequence of pieces: plain text, numbered fields that hold a literal the author may
change, and the place where the cursor comes to rest.  How a field and the final cursor are spelled
is up to the editor and given by a `Markup`; a template is turned into text by `render`.
-/

namespace SchemaAssist.Template

/-! ## 1. Pieces -/

/-- A piece of a template. -/
inductive Piece where
  | text (s : String)
  /-- A field with its number and the literal that it holds at first. -/
  | field (index : Int) (s : String)
  /-- Where the cursor comes to rest. -/
  | finalCursor
  deriving DecidableEq, Repr

/-! ## 2. Markup -/

/-- How an editor spells fields and the final cursor. -/
structure Markup where
  /-- The spelling of a field with its number and its literal. -/
  placeholder : Int → String → String
  finalCursor : String
  isSnippet : Bool

namespace Markup

/-- Tab stops: a dollar sign with the number of the field and its literal in braces. -/
def tabstop : Markup where
  placeholder index s := "$\x7b" ++ toString index ++ ":" ++ s ++ "\x7d"
  finalCursor := "$0"
  isSnippet := true

/-- No markup: a field is its literal and the final cursor is not shown. -/
def plain : Markup where
  placeholder _ s := s
  finalCursor := ""
  isSnippet := false

end Markup

/-! ## 3. Rendering -/

/-- The text of a piece. -/
def Piece.render (m : Markup) : Piece → String
  | .text s => s
  | .field index s => m.placeholder index s
  | .finalCursor => m.finalCursor

/-- The text of a template. -/
def render (m : Markup) (pieces : List Piece) : String :=
  String.join (pieces.map (·.render m))

/-- Rows of pieces with the same text between any two. -/
def separated (between : String) : List (List Piece) → List Piece
  | [] => []
  | [row] => row
  | row :: rest => row ++ .text between :: separated between rest

end SchemaAssist.Template
