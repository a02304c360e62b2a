/-
# Which literals are JSON, and which stand for their value

`Proofs.Template.Literal` has conditions under which the literal of a value is well-formed and under
which it is read back.  Here both are settled for good:

* `isJson_literalOf_iff`: the literal of a value without infinities and NaN is JSON, unless a string
  that is no JSON itself stands under a tag of numbers or truth values;
* `read_literalOf_iff`: the literal of an exact value is read back as the value just if the value
  fits the tag, and the tag that the value chooses and the type that is inferred for it write the
  same literal, which is read back.

The types of a schema are given as a list, of which the first one is the tag; no type at all is the
empty list.
-/
import SchemaAssist.Proofs.Json.WellFormed
import SchemaAssist.Proofs.Resource.GeneratedTree
import SchemaAssist.Proofs.Template.Literal

namespace SchemaAssist.Template

open SchemaAssist.Json SchemaAssist.Resource

/-! ## 1. Literals that are JSON -/

/-- Under the tag a value is written as its plain text. -/
def IsPlainTag (tag : Option String) : Prop :=
  tag = some "number" ∨ tag = some "integer" ∨ tag = some "boolean"

section Derivations

variable {v : Value}

theorem derives_literal (s : String) : Derives .value (literal s).toList := by
  simpa [literal] using derives_quoted false s.toList

/-- The plain text of a value that is no string. -/
theorem derives_plainText (h : v.IsFinite) (hkind : v.kind ≠ .str) :
    Derives .value (plainText v).toList := by
  cases h with
  | null => exact Value.IsFinite.null.derives_compact
  | bool b => simpa [plainText] using derives_boolText b
  | int n => simpa [plainText] using derives_integerText n
  | @double d hfinite =>
    rw [plainText]
    split
    · simpa using derives_integerText d.toInt
    · simpa using Derives.number (isNumeral_text .plain hfinite)
  | str => exact absurd rfl hkind
  | arr hitems => exact (Value.IsFinite.arr hitems).derives_compact
  | obj hmembers => exact (Value.IsFinite.obj hmembers).derives_compact

theorem derives_literalUnder {tag : String} (h : v.IsFinite)
    (hplain : IsPlainTag (some tag) → v.kind ≠ .str) :
    Derives .value (literalUnder tag v).toList := by
  unfold literalUnder
  split
  · exact derives_literal _
  · exact derives_plainText h (hplain (.inl rfl))
  · exact derives_plainText h (hplain (.inr (.inl rfl)))
  · exact derives_plainText h (hplain (.inr (.inr rfl)))
  · split
    · exact h.derives_pretty
    · exact .emptyArray (List.forall_mem_nil _)
  · split
    · exact h.derives_pretty
    · exact .emptyObject (List.forall_mem_nil _)
  · exact h.derives_compact

end Derivations

/-- Under a tag of plain texts the literal of a string is the string. -/
theorem literalOf_str {tag : Option String} (h : IsPlainTag tag) (s : String) :
    literalOf tag (some (.str s)) = s := by
  rcases h with rfl | rfl | rfl <;> rfl

/-- A string does not choose such a tag. -/
theorem not_isPlainTag_chosenTag {v : Value} (h : v.kind = .str) :
    ¬ IsPlainTag (some (chosenTag v)) := by
  cases v <;> simp [Value.kind] at h
  simp [IsPlainTag, chosenTag]

theorem derives_literalOf {tag : Option String} {v : Value} (h : v.IsFinite)
    (hplain : IsPlainTag tag → v.kind ≠ .str) : Derives .value (literalOf tag (some v)).toList := by
  by_cases hnull : v.kind = .null
  · cases v <;> simp [Value.kind] at hnull
    exact Value.IsFinite.null.derives_compact
  · rw [literalOf_some hnull]
    cases tag with
    | none =>
      exact derives_literalUnder h fun hchosen hkind => not_isPlainTag_chosenTag hkind hchosen
    | some tag => exact derives_literalUnder h hplain

/-- **The literal of a value is JSON, unless a string that is no JSON itself stands under a tag of
numbers or truth values**: it is inserted as it is. -/
theorem isJson_literalOf_iff (types : List String) {v : Value} (h : v.IsFinite) :
    IsJson (literalOf types.head? (some v)).toList
      ↔ ∀ s, v = .str s → IsPlainTag types.head? → IsJson s.toList := by
  constructor
  · rintro hjson s rfl hplain
    rwa [literalOf_str hplain] at hjson
  · intro hstrings
    by_cases hplain : IsPlainTag types.head? ∧ v.kind = .str
    · obtain ⟨hplain, hkind⟩ := hplain
      cases v <;> simp [Value.kind] at hkind
      rw [literalOf_str hplain]
      exact hstrings _ rfl hplain
    · exact (derives_literalOf h fun htag hkind => hplain ⟨htag, hkind⟩).isJson

/-- A double under a tag of numbers has a literal that is JSON. -/
theorem isJson_literalOf_double :
    IsJson (literalOf ["number", "null"].head?
      (some (.double (.finite false 5 (-1))))).toList := by
  rw [isJson_literalOf_iff _ (.double rfl)]
  rintro s ⟨⟩

/-- A string under a tag of numbers has none. -/
theorem not_isJson_literalOf_str :
    ¬ ∀ (types : List String) (v : Value), v.IsFinite →
      IsJson (literalOf types.head? (some v)).toList := by
  intro h
  have hread := (h ["number"] (.str "abc") (.str "abc")).read
  exact absurd hread (by decide)

/-! ## 2. Literals that stand for their value -/

/-- A source is as long as the text that it spells, or longer. -/
theorem length_le_of_spelled {source text : List Char} (h : Spelled source text) :
    text.length ≤ source.length := by
  induction h with
  | nil => exact Nat.le_refl 0
  | plain | letter | unit | pair => simp only [List.length_cons]; omega

theorem kind_of_readMagnitude {negative : Bool} {text : List Char} {v : Value}
    (h : readMagnitude? negative text = some v) : v.kind ≠ .str := by
  unfold readMagnitude? at h
  simp only at h
  split at h
  · cases h
  · obtain ⟨_, -, h⟩ := Option.bind_eq_some_iff.mp h
    obtain ⟨_, -, h⟩ := Option.bind_eq_some_iff.mp h
    split at h <;> cases h <;> nofun

/-- No word stands for a string. -/
theorem kind_of_readWord {word : List Char} {v : Value} (h : readWord? word = some v) :
    v.kind ≠ .str := by
  unfold readWord? at h
  repeat' split at h
  all_goals first
    | cases h; nofun
    | unfold readNumber? at h
  split at h <;> exact kind_of_readMagnitude h

/-- **A string is not read from itself**: its text has two quotes more. -/
theorem read_ne_self (s : String) : Value.read? s.toList ≠ some (.str s) := by
  intro hread
  obtain ⟨d, htext, hvalue⟩ := Value.read?_eq_some_iff.mp hread
  cases htree : d.tree with
  | bare w =>
    have hkind := kind_of_readWord (Option.some_get w.read).symm
    rw [htree, Tree.value, Bare.value] at hvalue
    exact hkind (by rw [hvalue]; rfl)
  | literal q =>
    rw [htree, Tree.value, Quotation.value] at hvalue
    have hlength := length_le_of_spelled q.spelled
    have hs : q.text = s.toList := by
      injection hvalue with hvalue
      rw [← hvalue, String.toList_ofList]
    have htotal := congrArg List.length htext
    simp only [Document.text, htree, Tree.chars, Quotation.chars, List.length_append,
      List.length_cons, hs] at htotal hlength
    omega
  | emptyArray | array | emptyObject | object =>
    rw [htree, Tree.value] at hvalue
    cases hvalue

/-- A text that stands for a value of one kind is not read as one of another. -/
theorem read_ne_of_kind {text : List Char} {v w : Value} (h : Written text w)
    (hkind : v.kind ≠ w.kind) : Value.read? text ≠ some v := by
  rintro hread
  rw [h.read] at hread
  cases hread
  exact hkind rfl

/-- A value that does not fit its tag is not read from its literal. -/
theorem read_literalUnder_ne {tag : String} {v : Value} (h : ¬ Fits (some tag) v) :
    Value.read? (literalUnder tag v).toList ≠ some v := by
  obtain ⟨-, h⟩ := not_or.mp h
  unfold literalUnder
  split
  · exact read_ne_of_kind (written_literal _) h
  · cases v <;> simp [Value.kind] at h
    exact read_ne_self _
  · cases v <;> simp [Value.kind] at h
    exact read_ne_self _
  · cases v <;> simp [Value.kind] at h
    exact read_ne_self _
  · split
    · exact absurd rfl h
    · exact read_ne_of_kind (written_emptyArray (List.forall_mem_nil _)) h
  · split
    · exact absurd rfl h
    · exact read_ne_of_kind (written_emptyObject (List.forall_mem_nil _)) h
  · -- Every value fits any other tag.
    rename_i hstring hnumber hinteger hboolean harray hobject
    refine absurd ?_ h
    split <;> simp_all

theorem read_literalOf_ne {tag : Option String} {v : Value} (h : ¬ Fits tag v) :
    Value.read? (literalOf tag (some v)).toList ≠ some v := by
  rw [literalOf_some (not_or.mp h).1]
  cases tag with
  | none => exact absurd (.inr trivial) h
  | some tag => exact read_literalUnder_ne h

/-- The inferred type writes a value as the tag does that the value chooses, although the two call
numbers differently and only the first has a name for `null`. -/
theorem literalOf_inferType (v : Value) :
    literalOf (declaredTags (inferType v)).head? (some v) = literalOf none (some v) := by
  cases v with
  | null | bool | int | str | arr | obj => rfl
  | double d =>
    rw [inferType]
    split <;> rfl

/-- **The literal of a value is read back as the value just if the value fits the tag.**  Without a
tag, and under the type that is inferred for it, a value has the same literal, which is read
back. -/
theorem read_literalOf_iff (types : List String) {v : Value} (h : v.Exact) :
    (Value.read? (literalOf types.head? (some v)).toList = some v ↔ Fits types.head? v)
      ∧ literalOf (declaredTags (inferType v)).head? (some v) = literalOf none (some v)
      ∧ Value.read? (literalOf none (some v)).toList = some v := by
  refine ⟨⟨fun hread => ?_, fun hfits => (written_literalOf h hfits).read⟩,
    literalOf_inferType v, (written_literalOf h (.inr trivial)).read⟩
  by_contra hfits
  exact read_literalOf_ne hfits hread

/-- An object under the tag of arrays is not read back, and under its own it is. -/
theorem read_literalOf_object :
    Value.read? (literalOf (some "array") (some (.obj [("a", .int 1)]))).toList
        ≠ some (.obj [("a", .int 1)])
      ∧ Value.read? (literalOf none (some (.obj [("a", .int 1)]))).toList
        = some (.obj [("a", .int 1)]) := by
  have hexact : (Value.obj [("a", .int 1)]).Exact :=
    .obj (by decide) (List.forall_mem_singleton.mpr (.int 1))
  obtain ⟨hiff, -, hread⟩ := read_literalOf_iff ["array"] hexact
  refine ⟨fun h => ?_, hread⟩
  rcases hiff.mp h with hkind | hkind <;> cases hkind

end SchemaAssist.Template
