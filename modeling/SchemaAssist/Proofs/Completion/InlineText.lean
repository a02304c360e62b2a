/-
# What an inline suggestion stands for

The value that a schema suggests is written in two ways: on one line for an inline suggestion, and
by templates as the literal of a field, where arrays and objects take several lines.  Both look at
the type tag, each in its own way, and under `string` they write what is no string by different
functions.  Still they stand for the same value:

* `exists_inlineText_eq_compact`: an inline suggestion is the text on one line of a value that the
  literal of the field stands for;
* `inlineText_faithful`: so the two are read back as the same value, and the suggestion breaks no
  line and keeps to the limit of its tag.

The limits bound what is suggested under their tags, and nothing else: `null` is suggested under
every tag before any limit is looked at.
-/
import SchemaAssist.Completion.Inline
import SchemaAssist.Proofs.Json.Characters
import SchemaAssist.Proofs.Schema.Required
import SchemaAssist.Proofs.Schema.Walk
import SchemaAssist.Proofs.Template.Literal
import SchemaAssist.Template.Member

namespace SchemaAssist.Completion

open SchemaAssist.Json SchemaAssist.Schema SchemaAssist.Template

variable {config : Config} {tag : Option String} {v : Value} {text : String}

/-! ## 1. Texts on one line -/

theorem within_eq_some_iff {limit : Nat} {t : String} :
    within limit t = some text ↔ t.length ≤ limit ∧ t = text := by
  unfold within
  split
  · simp_all
  · simp_all [Nat.not_le.mpr]

theorem compact_null : Value.null.compact = "null" := by
  simp [Value.compact, Value.text, Value.write]

/-- The plain text of a value that is no string is its text on one line. -/
theorem plainText_eq_compact (h : v.Exact) (hkind : v.kind ≠ .str) : plainText v = v.compact := by
  cases h with
  | null | arr | obj => rfl
  | bool b => simp [plainText, Value.compact, Value.text, Value.write]
  | int n => simp [plainText, Value.compact, Value.text, Value.write]
  | str => exact absurd rfl hkind

/-- A literal is the text on one line of the string. -/
theorem literal_eq_compact (s : String) : literal s = (Value.str s).compact := by
  simp [literal, Value.compact, Value.text, Value.write, Layout.compact]

/-- Under `string` a value is suggested as the literal of its plain text. -/
theorem inlineString_eq_some (h : v.Exact) (htext : inlineString v = some text) :
    text = (Value.str (plainText v)).compact := by
  have hliteral : ∀ t : String, (if t.contains '\n' then none else some (literal t)) = some text →
      text = (Value.str t).compact := by
    intro t ht
    split at ht
    · cases ht
    · rw [← literal_eq_compact, Option.some.inj ht]
  cases v with
  | str s => exact hliteral s htext
  | null | bool | int | double | arr | obj =>
    rw [plainText_eq_compact h (by simp [Value.kind])]
    exact hliteral _ htext

/-! ## 2. Both texts stand for the same value -/

/-- Under the tags of numbers and truth values the literal is the text on one line. -/
theorem literalOf_plainTag {t : String} (ht : t ∈ ["number", "integer", "boolean"])
    (h : Insertable (some t) v) (hnull : v.kind ≠ .null) :
    Fits (some t) v ∧ literalOf (some t) (some v) = v.compact := by
  have hkind : v.kind ≠ .str := by
    intro hkind
    obtain ⟨hnumber, hinteger, hboolean⟩ := h.quoted hkind
    simp_all
  rw [literalOf_some hnull]
  simp only [List.mem_cons, List.not_mem_nil, or_false] at ht
  rcases ht with rfl | rfl | rfl <;> exact ⟨.inr hkind, plainText_eq_compact h.exact hkind⟩

/-- Under every tag but `string` a value is suggested only if it fits the tag, and then as its text
on one line. -/
theorem inlineUnder_eq_some (h : Insertable tag v) (hnull : v.kind ≠ .null)
    (hstring : tag ≠ some "string") (htext : inlineUnder config tag v = some text) :
    Fits tag v ∧ text = v.compact := by
  unfold inlineUnder at htext
  split at htext
  · exact absurd rfl hstring
  · obtain ⟨hfits, hcompact⟩ := literalOf_plainTag (by simp) h hnull
    exact ⟨hfits, (Option.some.inj htext).symm.trans hcompact⟩
  · obtain ⟨hfits, hcompact⟩ := literalOf_plainTag (by simp) h hnull
    exact ⟨hfits, (Option.some.inj htext).symm.trans hcompact⟩
  · obtain ⟨hfits, hcompact⟩ := literalOf_plainTag (by simp) h hnull
    exact ⟨hfits, (Option.some.inj htext).symm.trans hcompact⟩
  · split at htext
    · exact ⟨.inr rfl, (Option.some.inj htext).symm⟩
    · exact ⟨.inr rfl, (within_eq_some_iff.mp htext).2.symm⟩
    · cases htext
  · split at htext
    · exact ⟨.inr rfl, (Option.some.inj htext).symm⟩
    · exact ⟨.inr rfl, (within_eq_some_iff.mp htext).2.symm⟩
    · cases htext
  · -- Every value fits any other tag.
    refine ⟨.inr ?_, (within_eq_some_iff.mp htext).2.symm⟩
    split <;> simp_all

theorem exists_inlineUnder_eq_compact (h : Insertable tag v) (hnull : v.kind ≠ .null)
    (htext : inlineUnder config tag v = some text) :
    ∃ w : Value, w.Exact ∧ text = w.compact ∧ Written (literalOf tag (some v)).toList w := by
  by_cases hstring : tag = some "string"
  · subst hstring
    refine ⟨.str (plainText v), .str _, inlineString_eq_some h.exact htext, ?_⟩
    rw [literalOf_some hnull]
    exact written_literal _
  · obtain ⟨hfits, hcompact⟩ := inlineUnder_eq_some h hnull hstring htext
    exact ⟨v, h.exact, hcompact, written_literalOf h.exact hfits⟩

/-- **The three ways of an inline suggestion.** -/
theorem inlineText_cases {h : Hints} (htext : inlineText config h = some text) :
    (h.suggested = some .null ∧ text = "null")
      ∨ (∃ v, h.suggested = some v ∧ v.kind ≠ .null
          ∧ inlineUnder config h.types.head? v = some text)
      ∨ h.suggested = none ∧ h.types.head? = some "boolean" ∧ text = "false" := by
  unfold inlineText inlineValue at htext
  cases hsuggested : h.suggested with
  | some v =>
    simp only [hsuggested] at htext
    cases v with
    | null => exact .inl ⟨rfl, (Option.some.inj htext).symm⟩
    | bool | int | double | str | arr | obj => exact .inr (.inl ⟨_, rfl, nofun, htext⟩)
  | none =>
    simp only [hsuggested] at htext
    split at htext
    · cases htext
    · rename_i hvalue
      split at hvalue <;> cases hvalue
    · rename_i v _ hvalue
      split at hvalue
      · rename_i hboolean
        have htag : h.types.head? = some "boolean" := by
          rw [Hints.primaryType] at hboolean
          cases htypes : h.types.head? with
          | none => simp [htypes] at hboolean
          | some t => simpa [htypes] using hboolean
        cases hvalue
        rw [htag] at htext
        exact .inr (.inr ⟨rfl, htag, (Option.some.inj htext).symm⟩)
      · cases hvalue

/-- **An inline suggestion is the text on one line of a value that the literal of the field stands
for**: of the suggested value, under `string` of its text, and of `false` where there is none. -/
theorem exists_inlineText_eq_compact {h : Hints}
    (hvalue : ∀ v, h.suggested = some v → Insertable h.types.head? v)
    (htext : inlineText config h = some text) :
    ∃ w : Value, w.Exact ∧ text = w.compact ∧ Written (fieldLiteral h).toList w := by
  rw [fieldLiteral]
  obtain ⟨hnull, rfl⟩ | ⟨v, hv, hkind, hunder⟩ | ⟨hnone, htag, rfl⟩ := inlineText_cases htext
  · rw [hnull]
    exact ⟨.null, .null, compact_null.symm, written_literalOf .null (.inl rfl)⟩
  · rw [hv]
    exact exists_inlineUnder_eq_compact (hvalue v hv) hkind hunder
  · rw [hnone, htag]
    exact ⟨.bool false, .bool false, plainText_eq_compact (.bool false) nofun,
      written_blank (some "boolean")⟩

/-! ## 3. Lengths -/

/-- The tags under which values are suggested in a way of their own. -/
def commonTags : List String := ["string", "number", "integer", "boolean", "array", "object"]

/-- What the limits say of an inline suggestion: `null` and empty containers are suggested under
`array` and `object` whatever their limits are. -/
structure KeepsToLimits (config : Config) (h : Hints) (text : String) : Prop where
  array : h.types.head? = some "array" → h.suggested ≠ some .null → h.suggested ≠ some (.arr []) →
    text.length ≤ config.inlineMaxArrayLength
  object : h.types.head? = some "object" → h.suggested ≠ some .null →
    h.suggested ≠ some (.obj []) → text.length ≤ config.inlineMaxObjectLength
  /-- The limit under all other tags but those of scalars. -/
  other : (∀ t ∈ commonTags, h.types.head? ≠ some t) → h.suggested ≠ some .null →
    text.length ≤ config.inlineMaxLength

theorem length_le_of_inlineUnder_array (hempty : v ≠ .arr [])
    (htext : inlineUnder config (some "array") v = some text) :
    text.length ≤ config.inlineMaxArrayLength := by
  simp only [inlineUnder] at htext
  split at htext
  · exact absurd rfl hempty
  · obtain ⟨hlength, rfl⟩ := within_eq_some_iff.mp htext
    exact hlength
  · cases htext

theorem length_le_of_inlineUnder_object (hempty : v ≠ .obj [])
    (htext : inlineUnder config (some "object") v = some text) :
    text.length ≤ config.inlineMaxObjectLength := by
  simp only [inlineUnder] at htext
  split at htext
  · exact absurd rfl hempty
  · obtain ⟨hlength, rfl⟩ := within_eq_some_iff.mp htext
    exact hlength
  · cases htext

theorem length_le_of_inlineUnder_other (htag : ∀ t ∈ commonTags, tag ≠ some t)
    (htext : inlineUnder config tag v = some text) : text.length ≤ config.inlineMaxLength := by
  have hother : inlineUnder config tag v = within config.inlineMaxLength v.compact := by
    unfold inlineUnder
    split <;> simp_all [commonTags]
  obtain ⟨hlength, rfl⟩ := within_eq_some_iff.mp (hother ▸ htext)
  exact hlength

theorem keepsToLimits_inlineText {h : Hints} (htext : inlineText config h = some text) :
    KeepsToLimits config h text := by
  obtain ⟨hnull, rfl⟩ | ⟨v, hv, -, hunder⟩ | ⟨-, htag, rfl⟩ := inlineText_cases htext
  · exact ⟨fun _ h _ => absurd hnull h, fun _ h _ => absurd hnull h, fun _ h => absurd hnull h⟩
  · refine ⟨fun htag _ hempty => ?_, fun htag _ hempty => ?_, fun htag _ => ?_⟩
    · rw [htag] at hunder
      exact length_le_of_inlineUnder_array (fun h => hempty (h ▸ hv)) hunder
    · rw [htag] at hunder
      exact length_le_of_inlineUnder_object (fun h => hempty (h ▸ hv)) hunder
    · exact length_le_of_inlineUnder_other htag hunder
  · refine ⟨fun h => ?_, fun h => ?_, fun h => absurd htag (h _ (by decide))⟩ <;>
      rw [htag] at h <;> simp at h

/-! ## 4. The suggestion of a node -/

/-- **An inline suggestion stands on one line, is read back as the value that the literal of the
field stands for, and keeps to the limits.** -/
theorem inlineText_faithful (config : Config) (n : Node) {text : String}
    (hvalue : ∀ v, n.hints.suggested = some v → Insertable n.hints.types.head? v)
    (htext : inlineText config n.hints = some text) :
    (∀ c ∈ text.toList, 0x20 ≤ c.toNat)
      ∧ (∃ v, Value.read? text.toList = some v
          ∧ Value.read? (fieldLiteral n.hints).toList = some v)
      ∧ KeepsToLimits config n.hints text := by
  obtain ⟨w, hw, rfl, hliteral⟩ := exists_inlineText_eq_compact hvalue htext
  exact ⟨hw.forall_mem_text Layout.uses_compact,
    ⟨w, (written_compact hw).read, hliteral.read⟩, keepsToLimits_inlineText htext⟩

/-- A port list that is recommended for an object. -/
def samplePorts : Hints where
  types := ["object"]
  recommended := some (.obj [("ports", .arr [.int 80, .int 443])])

/-- It is suggested on one line and inserted on four, and both are read back as the same object. -/
theorem inlineText_faithful_samplePorts :
    inlineText {} samplePorts = some "\x7b\"ports\":[80,443]\x7d"
      ∧ ∃ v, Value.read? "\x7b\"ports\":[80,443]\x7d".toList = some v
          ∧ Value.read? (fieldLiteral samplePorts).toList = some v := by
  have hexact : (Value.obj [("ports", .arr [.int 80, .int 443])]).Exact :=
    .obj (by decide) (List.forall_mem_singleton.mpr
      (.arr (List.forall_mem_cons.mpr ⟨.int 80, List.forall_mem_singleton.mpr (.int 443)⟩)))
  have htext : inlineText {} samplePorts = some "\x7b\"ports\":[80,443]\x7d" := by decide +kernel
  refine ⟨htext, (inlineText_faithful {} (.scalar samplePorts) ?_ htext).2.1⟩
  rintro v ⟨⟩
  exact ⟨hexact, nofun⟩

/-- A schema of arrays that are `null` by default. -/
def nullableArray : Members :=
  [("type", .str "array"), ("default", .null)]

theorem build_nullableArray :
    build (.obj nullableArray) = .ok (Node.ofSchema (.obj nullableArray)) :=
  build_eq_ok_iff.mpr
    ⟨rfl, hasReadableRequired_of_properties rfl rfl (List.forall_mem_nil _), rfl⟩

/-- **The limit of arrays does not bound `null`**, which is no empty array. -/
theorem not_forall_length_inlineText_le :
    ¬ ∀ (config : Config) (document : Value) (root n : Node) (path : List String) (text : String),
      build document = .ok root → root.navigate? path = some n →
      (∀ v, n.hints.suggested = some v → Insertable n.hints.types.head? v) →
      inlineText config n.hints = some text → n.hints.types.head? = some "array" →
      n.hints.suggested ≠ some (.arr []) → text.length ≤ config.inlineMaxArrayLength := by
  intro hall
  have hhints := Node.hints_ofSchema nullableArray
  have htypes : (Hints.ofSchema nullableArray).types.head? = some "array" := rfl
  have hnull : (Hints.ofSchema nullableArray).suggested = some .null := rfl
  have hlength := hall { inlineMaxArrayLength := 3 } (.obj nullableArray) _ _ [] "null"
    build_nullableArray rfl
  rw [hhints, htypes, hnull] at hlength
  have hinsertable : Insertable (some "array") .null := ⟨.null, nofun⟩
  have hnonempty : (some .null : Option Value) ≠ some (.arr []) := nofun
  exact absurd (hlength (by rintro v ⟨⟩; exact hinsertable) rfl rfl hnonempty) (by decide)

end SchemaAssist.Completion
