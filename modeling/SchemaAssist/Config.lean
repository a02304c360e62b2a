/-
# The settings of a completion engine

A `Config` holds valid settings only: a level of indentation is at least one blank wide and the
search for the colon after a key looks at one character at least.  Settings that arrive as unchecked
integers are `Settings`; `Settings.check` accepts them or names the first one that is out of range,
in the order in which the limits are listed.
-/
import SchemaAssist.Text.Offset

namespace SchemaAssist

open SchemaAssist.Text

/-! ## 1. Valid settings -/

/-- The settings of a completion engine. -/
structure Config where
  /-- How many blanks make a level of indentation. -/
  indentUnit : Nat := 2
  /-- How many characters after a closing quote are searched for the colon that makes it a key. -/
  keyLookahead : Nat := 10
  encoding : Encoding := .utf16
  /-- Whether object templates also hold optional properties that have a recommended value. -/
  includeOptional : Bool := true
  /-- The length of the longest value of no common type that is suggested inline. -/
  inlineMaxLength : Nat := 50
  inlineMaxArrayLength : Nat := 50
  inlineMaxObjectLength : Nat := 30
  indentUnit_pos : 1 ≤ indentUnit := by decide
  keyLookahead_pos : 1 ≤ keyLookahead := by decide

/-- A level of indentation. -/
def Config.indent (config : Config) : String :=
  String.ofList (List.replicate config.indentUnit ' ')

/-! ## 2. Settings to be checked -/

/-- Settings as they arrive, with integers that may be out of range. -/
structure Settings where
  indentUnit : Int := 2
  keyLookahead : Int := 10
  encoding : Encoding := .utf16
  includeOptional : Bool := true
  inlineMaxLength : Int := 50
  inlineMaxArrayLength : Int := 50
  inlineMaxObjectLength : Int := 30

/-- The settings that have a least value. -/
inductive Limit where
  | indentUnit
  | keyLookahead
  | inlineMaxLength
  | inlineMaxArrayLength
  | inlineMaxObjectLength
  deriving DecidableEq, Repr

namespace Limit

/-- The name of a setting in messages. -/
def name : Limit → String
  | indentUnit => "indent_unit"
  | keyLookahead => "key_lookahead"
  | inlineMaxLength => "inline_max_length"
  | inlineMaxArrayLength => "inline_max_array_length"
  | inlineMaxObjectLength => "inline_max_object_length"

/-- The least value of a setting. -/
def least : Limit → Int
  | indentUnit => 1
  | keyLookahead => 1
  | _ => 0

end Limit

/-- A setting that is below its least value. -/
structure OutOfRange where
  limit : Limit
  value : Int
  deriving DecidableEq, Repr

/-- The text of the error. -/
def OutOfRange.message (e : OutOfRange) : String :=
  e.limit.name ++ " must be >= " ++ toString e.limit.least ++ ", got " ++ toString e.value

/-- The configuration with the given settings, or the first setting that is out of range. -/
def Settings.check (s : Settings) : Except OutOfRange Config :=
  if h1 : s.indentUnit < 1 then .error ⟨.indentUnit, s.indentUnit⟩
  else if h2 : s.keyLookahead < 1 then .error ⟨.keyLookahead, s.keyLookahead⟩
  else if s.inlineMaxLength < 0 then .error ⟨.inlineMaxLength, s.inlineMaxLength⟩
  else if s.inlineMaxArrayLength < 0 then .error ⟨.inlineMaxArrayLength, s.inlineMaxArrayLength⟩
  else if s.inlineMaxObjectLength < 0 then
    .error ⟨.inlineMaxObjectLength, s.inlineMaxObjectLength⟩
  else .ok {
    indentUnit := s.indentUnit.toNat
    keyLookahead := s.keyLookahead.toNat
    encoding := s.encoding
    includeOptional := s.includeOptional
    inlineMaxLength := s.inlineMaxLength.toNat
    inlineMaxArrayLength := s.inlineMaxArrayLength.toNat
    inlineMaxObjectLength := s.inlineMaxObjectLength.toNat
    indentUnit_pos := by omega
    keyLookahead_pos := by omega }

end SchemaAssist
