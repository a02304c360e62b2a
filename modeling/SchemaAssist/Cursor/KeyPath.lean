/-
# The path of keys to the cursor

The path from the root of a document to the cursor, found by one pass over the text before the
cursor.  The text may be invalid or cut off anywhere, and the pass never fails.

Outside literals the pass keeps a stack of open containers, and the path:

- `{` opens an object, in which a key is awaited; `[` opens an array and puts the placeholder `"0"`
  on the path, since all elements share one schema;
- a literal that is closed while a key is awaited is a key if it is not empty and the first
  character after it that is not blank, within a window, is a colon; the key goes on the path in
  place of what its object had there;
- a comma in an object takes the object's key off the path and awaits the next key;
- `}` and `]` close the innermost container, whichever it is, and take its part off the path.

The path is kept flat, and each container counts the segments at the end of it that are its own.  At
a member position the key of the innermost object already has its value and is dropped.
-/
import SchemaAssist.Cursor.Quote
import SchemaAssist.Json.Quoted
import SchemaAssist.Text.Blank

namespace SchemaAssist.Cursor

open SchemaAssist.Text SchemaAssist.Json

/-! ## 1. Keys -/

/-- The path segment that stands for every element of an array. -/
def arrayPlaceholder : String := "0"

/-- The key that the source of a literal stands for; a source that is no literal stands for
itself. -/
def decodeKey (source : List Char) : String :=
  String.ofList (if '\\' ∈ source then (unescape source).getD source else source)

/-- How many of the characters after position `start` of a text of `size` characters a window of
`lookahead` characters holds.  A window that would end before the text begins ends that much before
the end of the text instead. -/
def windowSize (size start : Nat) (lookahead : Int) : Nat :=
  if 0 ≤ start + lookahead then lookahead.toNat else (size + lookahead).toNat

/-- Whether the first character that is not blank is a colon. -/
def startsWithColon (text : List Char) : Bool :=
  (text.dropWhile isBlank).head? == some ':'

/-- Whether a colon follows within the window, when `rest` is what a text of `size` characters goes
on with. -/
def colonFollows (size : Nat) (lookahead : Int) (rest : List Char) : Bool :=
  startsWithColon (rest.take (windowSize size (size - rest.length) lookahead))

/-! ## 2. The walk -/

/-- The kinds of containers. -/
inductive Container where
  | object
  | array
  deriving DecidableEq, Repr

/-- An open container. -/
structure Frame where
  kind : Container
  /-- How many segments at the end of the path are its own. -/
  segments : Nat
  deriving DecidableEq, Repr

/-- How far a text has been read. -/
structure Walk where
  /-- The path, its last segment first. -/
  path : List String := []
  /-- The open containers, the innermost first. -/
  frames : List Frame := []
  /-- A literal that is closed now may be a key. -/
  expectingKey : Bool := false
  quote : Quote := .outside
  /-- The source of the literal that is open, its last character first. -/
  source : List Char := []
  deriving DecidableEq, Repr

namespace Walk

/-- Closes the innermost container. -/
def close (s : Walk) : Walk :=
  match s.frames with
  | [] => { s with expectingKey := false }
  | frame :: frames =>
    { s with path := s.path.drop frame.segments, frames, expectingKey := false }

/-- Ends a member of the innermost container, if that is an object. -/
def endMember (s : Walk) : Walk :=
  match s.frames with
  | ⟨.object, n⟩ :: frames =>
    { s with path := s.path.drop n, frames := ⟨.object, 0⟩ :: frames, expectingKey := true }
  | _ => s

/-- Puts a key on the path, if one is awaited and the innermost container is an object. -/
def pushKey (s : Walk) (key : String) : Walk :=
  match s.expectingKey, s.frames with
  | true, ⟨.object, n⟩ :: frames =>
    { s with
      path := key :: s.path.drop n
      frames := ⟨.object, 1⟩ :: frames
      expectingKey := false }
  | _, _ => s

/-- A character outside literals. -/
def mark (s : Walk) (c : Char) : Walk :=
  if c = '"' then { s with source := [] }
  else if c = '{' then { s with frames := ⟨.object, 0⟩ :: s.frames, expectingKey := true }
  else if c = '[' then
    { s with
      path := arrayPlaceholder :: s.path
      frames := ⟨.array, 1⟩ :: s.frames
      expectingKey := false }
  else if c = '}' ∨ c = ']' then s.close
  else if c = ',' then s.endMember
  else s

/-- A character inside a literal; `isKey` says of what follows a closing quote whether it makes the
literal a key. -/
def inside (isKey : List Char → Bool) (s : Walk) (c : Char) (rest : List Char) : Walk :=
  if s.quote = .inside ∧ c = '"' then
    if !s.source.isEmpty && isKey rest then s.pushKey (decodeKey s.source.reverse) else s
  else { s with source := c :: s.source }

/-- The walk after a character, when the text goes on with `rest`. -/
def step (isKey : List Char → Bool) (s : Walk) (c : Char) (rest : List Char) : Walk :=
  let s' := if s.quote = .outside then s.mark c else s.inside isKey c rest
  { s' with quote := s.quote.step c }

/-- The walk after the rest of a text. -/
def run (isKey : List Char → Bool) : Walk → List Char → Walk
  | s, [] => s
  | s, c :: cs => run isKey (s.step isKey c cs) cs

/-- The walk over a text. -/
def ofText (text : List Char) (lookahead : Int) : Walk :=
  run (colonFollows text.length lookahead) {} text

/-- The segments that belong to the innermost container, if that is an object. -/
def memberSegments (s : Walk) : Nat :=
  match s.frames with
  | ⟨.object, n⟩ :: _ => n
  | _ => 0

end Walk

/-! ## 3. The path -/

/-- The path to the end of `text`; at a member position, without the key of the innermost object. -/
def keyPath (text : List Char) (lookahead : Int) (memberPosition : Bool) : List String :=
  let walk := Walk.ofText text lookahead
  (if memberPosition then walk.path.drop walk.memberSegments else walk.path).reverse

/-! ## 4. Small facts -/

/-- A window of a natural number of characters holds that many. -/
theorem windowSize_natCast (size start n : Nat) : windowSize size start (n : Int) = n := by
  unfold windowSize
  split <;> omega

/-- The literal state of the walk is that of the text. -/
theorem Walk.quote_run (isKey : List Char → Bool) (text : List Char) (s : Walk) :
    (s.run isKey text).quote = s.quote.after text := by
  induction text generalizing s with
  | nil => rfl
  | cons c cs ih => exact ih (s.step isKey c cs)

end SchemaAssist.Cursor
