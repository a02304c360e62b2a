/-
# Cursor offsets

An editor says where the cursor stands by an offset into the document, and editors differ in what
they count: UTF-16 code units, of which a character outside the Basic Multilingual Plane takes two,
or characters.  This file converts between such offsets and indices into the list of characters.

Out-of-range positions are clamped.  An offset inside a surrogate pair resolves to the index before
the character.
-/

namespace SchemaAssist.Text

/-! ## 1. Units -/

/-- The unit in which an editor counts cursor offsets. -/
inductive Encoding where
  | utf16
  | codepoint
  deriving DecidableEq, Repr

namespace Encoding

/-- The name that a configuration gives an encoding. -/
def name : Encoding → String
  | .utf16 => "utf16"
  | .codepoint => "codepoint"

/-- The encoding of a given name. -/
def ofName? (name : String) : Option Encoding :=
  if name = "utf16" then some .utf16
  else if name = "codepoint" then some .codepoint
  else none

/-- How many units one character takes. -/
def width : Encoding → Char → Nat
  | .utf16, c => if 0xffff < c.toNat then 2 else 1
  | .codepoint, _ => 1

theorem width_pos (e : Encoding) (c : Char) : 0 < e.width c := by
  cases e <;> simp only [width] <;> (try split) <;> omega

/-- How many units a text takes. -/
def size (e : Encoding) (text : List Char) : Nat :=
  text.foldr (fun c units => e.width c + units) 0

@[simp] theorem size_nil (e : Encoding) : e.size [] = 0 := rfl

@[simp] theorem size_cons (e : Encoding) (c : Char) (cs : List Char) :
    e.size (c :: cs) = e.width c + e.size cs := rfl

@[simp] theorem size_append (e : Encoding) (a b : List Char) :
    e.size (a ++ b) = e.size a + e.size b := by
  induction a with
  | nil => simp
  | cons c cs ih => simp [ih, Nat.add_assoc]

end Encoding

/-! ## 2. From offsets to indices and back -/

/-- How many leading characters of `text` fit into `units` units. -/
def fitting (e : Encoding) : List Char → Nat → Nat
  | [], _ => 0
  | c :: cs, units => if e.width c ≤ units then fitting e cs (units - e.width c) + 1 else 0

/-- The index into `text` that an editor's offset stands for. -/
def toIndex (e : Encoding) (text : List Char) (offset : Int) : Nat :=
  fitting e text offset.toNat

/-- The offset by which an editor names an index into `text`. -/
def toOffset (e : Encoding) (text : List Char) (index : Int) : Nat :=
  e.size (text.take index.toNat)

/-! ## 3. Bounds -/

theorem fitting_le_length (e : Encoding) (text : List Char) (units : Nat) :
    fitting e text units ≤ text.length := by
  induction text generalizing units with
  | nil => simp [fitting]
  | cons c cs ih =>
    simp only [fitting, List.length_cons]
    split
    · have := ih (units - e.width c); omega
    · omega

/-- An index never passes the end of the text. -/
theorem toIndex_le_length (e : Encoding) (text : List Char) (offset : Int) :
    toIndex e text offset ≤ text.length :=
  fitting_le_length e text _

end SchemaAssist.Text
