/-
# Published documents are read back

A value whose numbers are all integers is read back from its text in every layout that is in use, so
the text that a registry publishes for a type stands for the document of the type.

Where there is no document, the generic document stands in.  Its entry is kept apart from those of
the types, once it was asked for; in every run what is kept there is the generic document
(`KeepsGeneric`), since nothing else is ever put there.

`content_reads_back` has both, with what each layout promises of its characters.
-/
import SchemaAssist.Proofs.Json.Characters
import SchemaAssist.Proofs.Registry.History
import SchemaAssist.Proofs.Registry.Lookup
import SchemaAssist.Proofs.Resource.GeneratedTree

namespace SchemaAssist.Registry

open SchemaAssist.Completion SchemaAssist.Json SchemaAssist.Resource SchemaAssist.Schema

/-! ## 1. The generic document -/

/-- The keywords of the section `spec` of the generic document. -/
theorem hasReadableRequired_genericSpec :
    hasReadableRequired (described "object" "Resource specification"
      [("additionalProperties", .bool true)]) = true := by
  apply hasReadableRequired_of_properties
  · rfl
  · rfl
  · simp [propertySchemas, Members.find?_cons]

theorem build_genericDocument :
    Schema.build genericDocument = .ok (Node.ofSchema genericDocument) :=
  build_schemaDocument _ _ _ hasReadableRequired_genericSpec

/-- The generic document has no doubles, and no object in it repeats a name. -/
theorem exact_genericDocument : genericDocument.Exact := by
  simp [genericDocument, schemaDocument, metadataSection, described, stringMap, requiredKeyword,
    recommendedKeyword, Members.names, Value.exact_obj_iff, Value.exact_arr_iff, Value.Exact.str,
    Value.Exact.bool]

/-- What is kept for types without a document is the generic document. -/
def KeepsGeneric (r : Registry) : Prop :=
  ∀ entry, r.generic = some entry → entry.document = genericDocument

/-! ## 2. Requests keep the generic document -/

theorem generic_lookup (r : Registry) (type : String) :
    (r.lookup type).registry.generic = r.generic := by
  unfold lookup
  split
  · rfl
  · dsimp only
    split
    · rfl
    · rfl
    · split <;> rfl

theorem generic_prewarm : ∀ (r : Registry) (types : List String),
    (r.prewarm types).registry.generic = r.generic
  | _, [] => rfl
  | r, type :: rest => by
    rw [prewarm, Outcome.andThen]
    split
    · exact generic_lookup r type
    · exact (generic_prewarm _ rest).trans (generic_lookup r type)

theorem generic_schemaFor (r : Registry) (uri language : String) :
    (r.schemaFor uri language).registry.generic = r.generic := by
  rw [(schemaFor_prewarm r uri language).1, generic_prewarm]

namespace KeepsGeneric

variable {r r' : Registry}

theorem congr (h : KeepsGeneric r) (hsame : r'.generic = r.generic) : KeepsGeneric r' := by
  rw [KeepsGeneric, hsame]
  exact h

theorem of_none (h : r.generic = none) : KeepsGeneric r := by
  intro entry hentry
  rw [h] at hentry
  cases hentry

/-- **The entry that fits any type is that of the generic document**, be it kept or new. -/
theorem genericEntry (h : KeepsGeneric r) :
    ∃ entry, r.genericEntry.result = .ok entry ∧ entry.document = genericDocument
      ∧ KeepsGeneric r.genericEntry.registry := by
  unfold Registry.genericEntry
  cases hkept : r.generic with
  | some entry => exact ⟨entry, rfl, h entry hkept, h⟩
  | none =>
    rw [build_genericDocument]
    refine ⟨_, rfl, rfl, ?_⟩
    rintro entry ⟨⟩
    rfl

theorem content (h : KeepsGeneric r) (type : String) : KeepsGeneric (r.content type).registry := by
  unfold Registry.content
  split
  · exact h.genericEntry.choose_spec.2.2
  · have hlookup := h.congr (generic_lookup r type)
    rw [Outcome.andThen]
    split
    · exact hlookup
    · rename_i entry _
      cases entry with
      | some entry => exact hlookup
      | none => exact hlookup.genericEntry.choose_spec.2.2

theorem serve (h : KeepsGeneric r) (request : Request) :
    KeepsGeneric (r.serve request).registry := by
  cases request with
  | get type => exact h.congr (generic_lookup r type)
  | document type => exact h.congr (generic_lookup r type)
  | generic => exact h.genericEntry.choose_spec.2.2
  | content type => exact h.content type
  | prewarm types => exact h.congr (generic_prewarm r types)
  | complete engine uri language => exact h.congr (generic_schemaFor r uri language)
  | inline engine uri language => exact h.congr (generic_schemaFor r uri language)
  | clear => exact of_none rfl
  | refresh loader types => exact of_none rfl
  | uri | has | types | stats | write | delete => exact h

/-- **In every run what is kept is the generic document.** -/
theorem after : ∀ {r : Registry}, KeepsGeneric r → ∀ requests, KeepsGeneric (r.after requests)
  | _, h, [] => h
  | _, h, request :: rest => (h.serve request).after rest

end KeepsGeneric

/-! ## 3. Published documents -/

section Content

variable {r : Registry} {type : String}

/-- A document that is found is that of an entry that is found. -/
theorem lookup_of_document {v? : Option Value} (h : (r.document type).result = .ok v?) :
    ∃ found, (r.lookup type).result = .ok found ∧ found.map (·.document) = v? := by
  rw [document, Outcome.map] at h
  cases hlookup : (r.lookup type).result with
  | error e =>
    rw [hlookup] at h
    cases h
  | ok found =>
    rw [hlookup] at h
    exact ⟨found, rfl, Except.ok.inj h⟩

/-- An entry that was found is kept. -/
theorem find?_of_lookup {entry : Entry} (h : (r.lookup type).result = .ok (some entry)) :
    (r.lookup type).registry.cache.find? type = some entry := by
  unfold lookup at h ⊢
  split at h
  · rename_i kept hkept
    obtain rfl : kept = entry := by simpa [answer] using h
    simpa only [answer, Recent.find?_use] using hkept
  · dsimp only at h ⊢
    split at h
    · cases h
    · cases h
    · split at h
      · cases h
      · rename_i new _ _ cache hinsert
        obtain rfl : new = entry := by simpa using h
        exact Recent.find?_of_insert? hinsert

/-- What was found is found again. -/
theorem lookup_lookup {entry : Entry} (h : (r.lookup type).result = .ok (some entry)) :
    ((r.lookup type).registry.lookup type).result = .ok (some entry) := by
  have hfind := find?_of_lookup h
  conv_lhs => rw [lookup, hfind]
  rfl

theorem content_of_lookup {entry : Entry} (htype : type ≠ genericName)
    (h : (r.lookup type).result = .ok (some entry)) :
    (r.content type).result = .ok (entry.document.text .published) := by
  rw [content, if_neg htype, Outcome.andThen, h]
  rfl

/-- **The document of a type is what is published for it**, whether it was asked for before or
not. -/
theorem content_of_document {v : Value} (htype : type ≠ genericName)
    (h : (r.document type).result = .ok (some v)) :
    (r.content type).result = .ok (v.text .published)
      ∧ ((r.document type).registry.content type).result = .ok (v.text .published) := by
  obtain ⟨found, hlookup, hdocument⟩ := lookup_of_document h
  obtain ⟨entry, rfl, rfl⟩ := Option.map_eq_some_iff.mp hdocument
  exact ⟨content_of_lookup htype hlookup, content_of_lookup htype (lookup_lookup hlookup)⟩

/-- **For a type without a document the generic document is published.** -/
theorem content_generic (hr : KeepsGeneric r)
    (h : type = genericName ∨ (r.document type).result = .ok none) :
    (r.content type).result = .ok (genericDocument.text .published) := by
  have hgeneric : ∀ {r : Registry}, KeepsGeneric r →
      (r.genericEntry.map fun entry => entry.document.text .published).result
        = .ok (genericDocument.text .published) := by
    intro r hr
    obtain ⟨entry, hentry, hdocument, -⟩ := hr.genericEntry
    rw [Outcome.map, hentry, ← hdocument]
    rfl
  unfold content
  split
  · exact hgeneric hr
  · rename_i htype
    obtain ⟨found, hlookup, hdocument⟩ := lookup_of_document (h.resolve_left htype)
    rw [Option.map_eq_none_iff] at hdocument
    subst hdocument
    rw [Outcome.andThen, hlookup]
    exact hgeneric (hr.congr (generic_lookup r type))

/-- **What is published is read back.**  A value whose numbers are all integers is read back from
its text on one line, with one item a line, and published; the first has no controls, and the last
is ASCII.  In every run of requests the text that is published for a type with such a document is
read back as the document, and that of the generic document stands in for a type without one. -/
theorem content_reads_back (r : Registry) (hfresh : r.generic = none) (requests : List Request) :
    (∀ v : Value, v.Exact →
      Value.read? v.compact.toList = some v
        ∧ Value.read? v.pretty.toList = some v
        ∧ Value.read? (v.text .published).toList = some v
        ∧ (∀ c ∈ v.compact.toList, 0x20 ≤ c.toNat)
        ∧ ∀ c ∈ (v.text .published).toList, c.toNat < 0x80)
      ∧ (∀ type v, type ≠ genericName → ((after r requests).document type).result = .ok (some v) →
          v.Exact → ∃ text, ((after r requests).content type).result = .ok text
            ∧ (((after r requests).document type).registry.content type).result = .ok text
            ∧ Value.read? text.toList = some v)
      ∧ ∀ type, type = genericName ∨ ((after r requests).document type).result = .ok none →
          ∃ text, ((after r requests).content type).result = .ok text
            ∧ Value.read? text.toList = some genericDocument := by
  have hkeeps := (KeepsGeneric.of_none hfresh).after requests
  refine ⟨?_, ?_, ?_⟩
  · intro v hv
    exact ⟨hv.read_text Layout.spaces_compact, hv.read_text Layout.spaces_pretty,
      hv.read_text Layout.spaces_published, hv.forall_mem_text Layout.uses_compact,
      hv.forall_mem_text Layout.uses_published⟩
  · intro type v htype hdocument hv
    obtain ⟨hcontent, hagain⟩ := content_of_document htype hdocument
    exact ⟨_, hcontent, hagain, hv.read_text Layout.spaces_published⟩
  · intro type h
    exact ⟨_, content_generic hkeeps h, exact_genericDocument.read_text Layout.spaces_published⟩

end Content

/-- A schema with characters that are not ASCII. -/
def accented : Value :=
  .obj [("title", .str "é😀\n"), ("examples", .arr [.int (-5), .obj []])]

theorem exact_accented : accented.Exact := by
  simp [accented, Members.names, Value.exact_obj_iff, Value.exact_arr_iff, Value.Exact.str,
    Value.Exact.int]

theorem build_accented : Schema.build accented = .ok (Node.ofSchema accented) := by
  have hread : hasReadableRequired accented = true := by
    apply hasReadableRequired_of_properties
    · rfl
    · rfl
    · simp [propertySchemas, Members.find?_cons]
  rw [accented] at hread ⊢
  rw [build, if_pos hread]

/-- In a registry over that schema, after the generic document was asked for. -/
theorem content_reads_back_accented :
    (ofSchemas [("t", accented)] 1).generic = none
      ∧ ∃ text, ((after (ofSchemas [("t", accented)] 1) [.generic]).content "t").result = .ok text
        ∧ Value.read? text.toList = some accented := by
  have hfresh : (ofSchemas [("t", accented)] 1).generic = none := rfl
  have hdocument : ((after (ofSchemas [("t", accented)] 1) [.generic]).document "t").result
      = .ok (some accented) := by
    have hstore := sameStore_genericEntry (ofSchemas [("t", accented)] 1)
    have hanswer : ((ofSchemas [("t", accented)] 1).genericEntry.registry.callFor "t").answer
        = .ok (some accented) := by
      rw [Call.answer, callFor, hstore.loader]
      rfl
    have hfind : (ofSchemas [("t", accented)] 1).genericEntry.registry.cache.find? "t" = none := by
      rw [hstore.cache]
      rfl
    have hinsert (entry : Entry) :
        (ofSchemas [("t", accented)] 1).genericEntry.registry.cache.insert? "t" entry
          = some { capacity := 1, entries := [("t", entry)] } := by
      rw [hstore.cache]
      rfl
    simp [after, serve, Outcome.map, document, lookup, hfind, hanswer,
      entryOf_of_build build_accented, hinsert, Except.map]
  obtain ⟨text, hcontent, -, hread⟩ :=
    (content_reads_back _ hfresh [.generic]).2.1 "t" accented (by decide) hdocument exact_accented
  exact ⟨hfresh, text, hcontent, hread⟩

end SchemaAssist.Registry
