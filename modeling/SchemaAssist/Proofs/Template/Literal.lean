/-
# The literals of templates are JSON

The literal that a template inserts for a value is chosen by a type tag, so it need not stand for
the value, nor for any: a string under a tag of numbers is inserted as it is.  This file says when
the literal is well-formed and when it stands for the value.

* `written_literalOf`: a value that `Fits` its tag is read back from its literal;
* `exists_written_literalOf`: for all but strings under `number`, `integer` and `boolean` the
  literal is that of some value.

Doubles are left out of both, since their text need not read back (`Value.Exact`).
-/
import SchemaAssist.Proofs.Json.Writing
import SchemaAssist.Template.Literal

namespace SchemaAssist.Template

open SchemaAssist.Json

/-! ## 1. Blanks -/

/-- What the blank of a tag stands for. -/
def blankValue (tag : Option String) : Value :=
  match tag with
  | some "number" => .int 0
  | some "integer" => .int 0
  | some "boolean" => .bool false
  | some "array" => .arr []
  | some "object" => .obj []
  | _ => .str ""

theorem written_blank (tag : Option String) : Written (blank tag).toList (blankValue tag) := by
  unfold blank
  split
  · exact written_int 0
  · exact written_int 0
  · exact written_bool false
  · exact written_emptyArray (List.forall_mem_nil _)
  · exact written_emptyObject (List.forall_mem_nil _)
  · rename_i hnumber hinteger hboolean harray hobject
    have hvalue : blankValue tag = .str "" := by
      unfold blankValue
      split <;> simp_all
    rw [hvalue]
    exact written_quoted false ""

/-! ## 2. Values that fit a tag -/

/-- The literal of the value under the tag stands for the value: a string under `string`, an array
under `array`, an object under `object`, no string under `number`, `integer` and `boolean`, and
`null` everywhere. -/
def Fits (tag : Option String) (v : Value) : Prop :=
  v.kind = .null ∨
    match tag with
    | some "string" => v.kind = .str
    | some "number" => v.kind ≠ .str
    | some "integer" => v.kind ≠ .str
    | some "boolean" => v.kind ≠ .str
    | some "array" => v.kind = .arr
    | some "object" => v.kind = .obj
    | _ => True

/-- The literal of the value under the tag is well-formed. -/
structure Insertable (tag : Option String) (v : Value) : Prop where
  exact : v.Exact
  /-- It is no string that would be inserted without quotes. -/
  quoted : v.kind = .str → tag ≠ some "number" ∧ tag ≠ some "integer" ∧ tag ≠ some "boolean"

theorem Fits.insertable {tag : Option String} {v : Value} (h : Fits tag v) (hv : v.Exact) :
    Insertable tag v := by
  refine ⟨hv, fun hstr => ?_⟩
  have hnull : v.kind ≠ .null := by simp [hstr]
  have h := h.resolve_left hnull
  refine ⟨?_, ?_, ?_⟩ <;> rintro rfl <;> exact h hstr

/-- A value fits the tag that it chooses. -/
theorem fits_chosenTag (v : Value) : Fits (some (chosenTag v)) v := by
  cases v <;> simp [Fits, chosenTag, Value.kind]

/-! ## 3. Literals -/

section Literals

variable {v : Value}

theorem written_compact (h : v.Exact) : Written v.compact.toList v := by
  simpa [Value.compact, Value.text] using h.written Layout.spaces_compact 0

theorem written_pretty (h : v.Exact) : Written v.pretty.toList v := by
  simpa [Value.pretty, Value.text] using h.written Layout.spaces_pretty 0

theorem written_literal (s : String) : Written (literal s).toList (.str s) := by
  simpa [literal] using written_quoted false s

/-- The plain text of a value that is no string. -/
theorem written_plainText (h : v.Exact) (hkind : v.kind ≠ .str) :
    Written (plainText v).toList v := by
  cases h with
  | null => exact written_compact .null
  | bool b => simpa [plainText] using written_bool b
  | int n => simpa [plainText] using written_int n
  | str => exact absurd rfl hkind
  | arr hitems => exact written_compact (.arr hitems)
  | obj hnames hmembers => exact written_compact (.obj hnames hmembers)

theorem written_literalUnder {tag : String} (h : v.Exact) (hnull : v.kind ≠ .null)
    (hfits : Fits (some tag) v) : Written (literalUnder tag v).toList v := by
  have hfits := hfits.resolve_left hnull
  unfold literalUnder
  split
  · cases v <;> simp [Value.kind] at hfits
    exact written_literal _
  · exact written_plainText h hfits
  · exact written_plainText h hfits
  · exact written_plainText h hfits
  · cases v <;> simp [Value.kind] at hfits
    exact written_pretty h
  · cases v <;> simp [Value.kind] at hfits
    exact written_pretty h
  · exact written_compact h

theorem exists_written_literalUnder {tag : String} (h : Insertable (some tag) v) :
    ∃ w, Written (literalUnder tag v).toList w := by
  have hstr : tag = "number" ∨ tag = "integer" ∨ tag = "boolean" → v.kind ≠ .str := by
    intro htag hkind
    obtain ⟨hnumber, hinteger, hboolean⟩ := h.quoted hkind
    rcases htag with rfl | rfl | rfl
    · exact hnumber rfl
    · exact hinteger rfl
    · exact hboolean rfl
  unfold literalUnder
  split
  · exact ⟨_, written_literal _⟩
  · exact ⟨_, written_plainText h.exact (hstr (by simp))⟩
  · exact ⟨_, written_plainText h.exact (hstr (by simp))⟩
  · exact ⟨_, written_plainText h.exact (hstr (by simp))⟩
  · split
    · exact ⟨_, written_pretty h.exact⟩
    · exact ⟨_, written_blank (some "array")⟩
  · split
    · exact ⟨_, written_pretty h.exact⟩
    · exact ⟨_, written_blank (some "object")⟩
  · exact ⟨_, written_compact h.exact⟩

end Literals

theorem literalOf_some {tag : Option String} {v : Value} (h : v.kind ≠ .null) :
    literalOf tag (some v) = literalUnder (tag.getD (chosenTag v)) v := by
  cases v with
  | null => exact absurd rfl h
  | bool | int | double | str | arr | obj => rfl

/-- **A value that fits its tag is read back from its literal.** -/
theorem written_literalOf {tag : Option String} {v : Value} (h : v.Exact) (hfits : Fits tag v) :
    Written (literalOf tag (some v)).toList v := by
  by_cases hnull : v.kind = .null
  · cases v <;> simp [Value.kind] at hnull
    rw [literalOf_null]
    exact written_of_readWord rfl
  · rw [literalOf_some hnull]
    cases tag with
    | none => exact written_literalUnder h hnull (fits_chosenTag v)
    | some tag => exact written_literalUnder h hnull hfits

/-- **The literal of a value is well-formed**, and so is the blank where there is none. -/
theorem exists_written_literalOf {tag : Option String} {value : Option Value}
    (h : ∀ v, value = some v → Insertable tag v) :
    ∃ w, Written (literalOf tag value).toList w := by
  cases value with
  | none => exact ⟨_, written_blank tag⟩
  | some v =>
    have hv := h v rfl
    by_cases hnull : v.kind = .null
    · exact ⟨v, written_literalOf hv.exact (.inl hnull)⟩
    · rw [literalOf_some hnull]
      cases tag with
      | none => exact exists_written_literalUnder ((fits_chosenTag v).insertable hv.exact)
      | some tag => exact exists_written_literalUnder hv

end SchemaAssist.Template
