/-
# The tree of a generated schema document

A resource type is described by fields with dotted paths; the section `spec` of its schema document
is laid out by them.  The tree of that document holds just these fields
(`fields_of_generated`): below `spec` there is a node at a path exactly when the path leads to a
field, a field's node carries the hints of the field, and what lies before a field is an object.
This holds in whatever order the fields are listed, and where their paths are prefixes of each
other.
-/
import Mathlib.Data.List.Induction
import SchemaAssist.Proofs.Resource.Placement
import SchemaAssist.Proofs.Schema.Required
import SchemaAssist.Proofs.Schema.Walk
import SchemaAssist.Proofs.Text.Lines

namespace SchemaAssist.Resource

open SchemaAssist.Json SchemaAssist.Schema

/-! ## 1. Dotted paths -/

/-- A dotted path addresses a field by the names on the way to it below `spec`. -/
structure Addresses (dotted : String) (names : List String) : Prop where
  spelled : dotted = "spec." ++ ".".intercalate names
  /-- There is a name, which may be empty. -/
  ne_nil : names ≠ []
  dotless : ∀ name ∈ names, '.' ∉ name.toList

theorem toList_dotted (names : List String) :
    ("spec." ++ ".".intercalate names).toList
      = "spec.".toList ++ ['.'].intercalate (names.map String.toList) := by
  rw [String.toList_append, String.toList_intercalate]
  rfl

/-- The names of a dotted path are those by which it addresses a field. -/
theorem specPath?_eq_some_iff {dotted : String} {names : List String} :
    specPath? dotted = some names ↔ Addresses dotted names := by
  constructor
  · intro h
    unfold specPath? at h
    simp only [List.isPrefixOf_iff_prefix] at h
    split at h
    · rename_i hleads
      obtain ⟨rest, hrest⟩ := hleads
      rw [← hrest, List.drop_left, Option.some.injEq] at h
      subst h
      refine ⟨?_, ?_, ?_⟩
      · rw [← String.toList_inj, toList_dotted, ← hrest, List.map_map]
        simp [Function.comp_def, List.intercalate_splitOn]
      · simp [List.splitOn_ne_nil]
      · intro name hname
        obtain ⟨part, hpart, rfl⟩ := List.mem_map.mp hname
        rw [String.toList_ofList]
        exact Text.not_mem_of_mem_splitOn hpart
    · cases h
  · rintro ⟨rfl, hne, hdotless⟩
    have hsplit : (['.'].intercalate (names.map String.toList)).splitOn '.'
        = names.map String.toList := by
      apply List.splitOn_intercalate
      · simpa using hdotless
      · simpa using hne
    unfold specPath?
    simp only [toList_dotted]
    rw [if_pos (List.isPrefixOf_iff_prefix.mpr (List.prefix_append _ _)), List.drop_left, hsplit]
    simp [Function.comp_def]

/-- A path of names has one spelling. -/
theorem Addresses.unique {dotted dotted' : String} {names : List String}
    (h : Addresses dotted names) (h' : Addresses dotted' names) : dotted = dotted' := by
  rw [h.spelled, h'.spelled]

/-! ## 2. The section of the fields -/

/-- The fields that lie below `spec`, by their paths. -/
def placedFields (fields : List (String × FieldHints)) : List (List String × FieldHints) :=
  fields.filterMap fun f => (specPath? f.1).map fun names => (names, f.2)

theorem mem_placedFields {fields : List (String × FieldHints)} {f : List String × FieldHints} :
    f ∈ placedFields fields ↔ ∃ g ∈ fields, Addresses g.1 f.1 ∧ g.2 = f.2 := by
  simp only [placedFields, List.mem_filterMap, Option.map_eq_some_iff, specPath?_eq_some_iff]
  constructor
  · rintro ⟨g, hg, names, hnames, rfl⟩
    exact ⟨g, hg, hnames, rfl⟩
  · rintro ⟨g, hg, hnames, hhints⟩
    exact ⟨g, hg, f.1, hnames, by rw [hhints]⟩

/-- The paths that lead to fields. -/
theorem exists_placedFields_iff {fields : List (String × FieldHints)} {q : List String} :
    (∃ f ∈ placedFields fields, q <+: f.1)
      ↔ ∃ f ∈ fields, ∃ names, Addresses f.1 names ∧ q <+: names := by
  constructor
  · rintro ⟨f, hf, hleads⟩
    obtain ⟨g, hg, haddress, -⟩ := mem_placedFields.mp hf
    exact ⟨g, hg, f.1, haddress, hleads⟩
  · rintro ⟨g, hg, names, haddress, hleads⟩
    exact ⟨(names, g.2), mem_placedFields.mpr ⟨g, hg, haddress, rfl⟩, hleads⟩

/-- Some properties as the properties of a schema. -/
def withProperties (properties : Members) : Members :=
  [("properties", .obj properties)]

@[simp] theorem propertySchemas_withProperties (properties : Members) :
    propertySchemas (withProperties properties) = properties := by
  simp [withProperties, propertySchemas, Members.find?_cons]

/-- **What one field after the other keeps holds after all fields have been placed.**  The induction
is on the fields from the last one, as they are placed from the first one on. -/
theorem specProperties_induct {motive : List (List String × FieldHints) → Members → Prop}
    (nil : motive [] [])
    (step : ∀ fields properties path hints, path ≠ [] → (∀ f ∈ fields, f.1 ≠ path) →
      motive fields properties →
        motive (fields ++ [(path, hints)]) (place (fieldKeywords hints) path properties))
    {fields : List (String × FieldHints)} (h : (Members.names fields).Nodup) :
    motive (placedFields fields) (specProperties fields) := by
  induction fields using List.reverseRecOn with
  | nil => exact nil
  | append_singleton fields f ih =>
    rw [Members.names, List.map_append, List.nodup_append] at h
    obtain ⟨hfields, -, hnew⟩ := h
    have hplaced : placedFields (fields ++ [f])
        = placedFields fields ++ placedFields [f] := List.filterMap_append
    cases hnames : specPath? f.1 with
    | none =>
      have hlast : placedFields [f] = [] := by simp [placedFields, hnames]
      have hstep : specProperties (fields ++ [f]) = specProperties fields := by
        simp [specProperties, hnames]
      rw [hstep, hplaced, hlast, List.append_nil]
      exact ih hfields
    | some names =>
      have haddress := specPath?_eq_some_iff.mp hnames
      have hlast : placedFields [f] = [(names, f.2)] := by simp [placedFields, hnames]
      have hdistinct : ∀ g ∈ placedFields fields, g.1 ≠ names := by
        rintro g hg rfl
        obtain ⟨g', hg', haddress', -⟩ := mem_placedFields.mp hg
        exact hnew g'.1 (List.mem_map_of_mem hg') f.1 (by simp) (haddress'.unique haddress)
      have hstep : specProperties (fields ++ [f])
          = place (fieldKeywords f.2) names (specProperties fields) := by
        simp [specProperties, hnames]
      rw [hstep, hplaced, hlast]
      exact step _ _ _ _ haddress.ne_nil hdistinct (ih hfields)

/-- **The section after all fields have been placed.** -/
theorem laidOut_specProperties {fields : List (String × FieldHints)}
    (h : (Members.names fields).Nodup) :
    LaidOut (placedFields fields) (withProperties (specProperties fields)) := by
  refine specProperties_induct
    (motive := fun fields properties => LaidOut fields (withProperties properties)) ?_ ?_ h
  · exact laidOut_nil (propertySchemas_withProperties [])
  · intro fields properties path hints hpath hnew hlaid
    exact (hlaid.grow hpath hnew hints).congr (by simp)

/-! ## 3. Schemas of fields -/

/-- A schema that neither lists items nor requires names, and whose properties are such schemas. -/
inductive FieldSchema : Value → Prop where
  | obj {schema : Members} : Members.find? "items" schema = none →
      Members.find? "required" schema = none →
      (∀ m ∈ propertySchemas schema, FieldSchema m.2) → FieldSchema (.obj schema)

theorem FieldSchema.find? {properties : Members} (h : ∀ m ∈ properties, FieldSchema m.2)
    {name : String} {v : Value} (hv : Members.find? name properties = some v) :
    ∃ schema, v = .obj schema ∧ FieldSchema (.obj schema) := by
  have hschema := h (name, v) (Members.mem_of_find? hv)
  cases hschema with
  | obj hitems hrequired hproperties => exact ⟨_, rfl, .obj hitems hrequired hproperties⟩

/-- The schema that a field starts from. -/
theorem FieldSchema.schemaMembers {properties otherwise : Members}
    (h : ∀ m ∈ properties, FieldSchema m.2) (hotherwise : FieldSchema (.obj otherwise))
    (name : String) :
    FieldSchema (.obj (schemaMembers (Members.find? name properties) otherwise)) := by
  cases hfind : Members.find? name properties with
  | none => exact hotherwise
  | some v =>
    obtain ⟨schema, rfl, hschema⟩ := FieldSchema.find? h hfind
    exact hschema

/-- Placing a field keeps schemas of fields. -/
theorem FieldSchema.place (hints : FieldHints) : ∀ (path : List String) {properties : Members},
    (∀ m ∈ properties, FieldSchema m.2) →
      ∀ m ∈ place (fieldKeywords hints) path properties, FieldSchema m.2
  | [], _, h => h
  | [leaf], properties, h => by
    intro m hm
    rcases Members.eq_or_mem_of_mem_put hm with rfl | hm
    · have hstart : FieldSchema (.obj [("type", .str "string")]) :=
        .obj rfl rfl (by simp [propertySchemas, Members.find?_cons])
      cases FieldSchema.schemaMembers h hstart leaf with
      | obj hitems hrequired hproperties =>
        refine .obj ?_ ?_ ?_
        · rw [find?_merge _ (nodup_names_fieldKeywords hints),
            find?_structure_fieldKeywords hints (by simp), hitems, Option.none_or]
        · rw [find?_merge _ (nodup_names_fieldKeywords hints),
            find?_structure_fieldKeywords hints (by simp), hrequired, Option.none_or]
        · rw [propertySchemas_merge]
          exact hproperties
    · exact h m hm
  | part :: name :: path, properties, h => by
    intro m hm
    rw [place_cons (List.cons_ne_nil name path)] at hm
    rcases Members.eq_or_mem_of_mem_put hm with rfl | hm
    · have hstart : FieldSchema (.obj emptyObject) :=
        .obj rfl rfl (by simp [propertySchemas, emptyObject, Members.find?_cons])
      cases FieldSchema.schemaMembers h hstart part with
      | obj hitems hrequired hproperties =>
        refine .obj ?_ ?_ ?_
        · rw [find?_grow (by decide), find?_asObject (by decide), hitems]
        · rw [find?_grow (by decide), find?_asObject (by decide), hrequired]
        · rw [propertySchemas_grow, propertySchemas_asObject]
          exact FieldSchema.place hints (name :: path) hproperties
    · exact h m hm

theorem fieldSchema_specProperties (fields : List (String × FieldHints)) :
    ∀ m ∈ specProperties fields, FieldSchema m.2 := by
  induction fields using List.reverseRecOn with
  | nil => simp [specProperties]
  | append_singleton fields f ih =>
    have hstep : specProperties (fields ++ [f])
        = ((specPath? f.1).map fun names =>
            place (fieldKeywords f.2) names (specProperties fields)).getD
          (specProperties fields) := by
      cases hnames : specPath? f.1 <;> simp [specProperties, hnames]
    rw [hstep]
    cases specPath? f.1 with
    | none => exact ih
    | some names => exact FieldSchema.place f.2 names ih

theorem propertySchemas_of_none {schema : Members} (h : Members.find? "properties" schema = none) :
    propertySchemas schema = [] := by
  rw [propertySchemas, h]

/-- One step from the schema of a field leads to a property. -/
theorem FieldSchema.subschema? {schema : Members} (h : FieldSchema (.obj schema)) (name : String) :
    subschema? (.obj schema) name = Members.find? name (propertySchemas schema) := by
  cases h with
  | obj hitems hrequired hproperties =>
    rw [Schema.subschema?]
    by_cases hobject : describesObject schema = true
    · rw [if_pos hobject]
    · have hnone : Members.find? "properties" schema = none := by
        simp only [describesObject, Bool.or_eq_true, not_or, Option.not_isSome_iff_eq_none]
          at hobject
        exact hobject.1
      have hitem : itemSchema? schema = none := by rw [itemSchema?, hitems]
      rw [if_neg hobject, hitem, propertySchemas_of_none hnone]
      simp

/-- A walk through properties that are schemas of fields. -/
theorem subschemaAt?_eq {schema : Members}
    (hstep : ∀ name, subschema? (.obj schema) name = Members.find? name (propertySchemas schema))
    (h : ∀ m ∈ propertySchemas schema, FieldSchema m.2) (path : List String) :
    subschemaAt? (.obj schema) path = (schemaAt? schema path).map .obj := by
  induction path generalizing schema with
  | nil => rfl
  | cons name path ih =>
    rw [subschemaAt?, hstep, schemaAt?]
    cases hfind : Members.find? name (propertySchemas schema) with
    | none => rfl
    | some v =>
      obtain ⟨inner, rfl, hinner⟩ := FieldSchema.find? h hfind
      have hbelow : ∀ m ∈ propertySchemas inner, FieldSchema m.2 := by
        cases hinner with
        | obj hitems hrequired hproperties => exact hproperties
      exact ih hinner.subschema? hbelow

theorem FieldSchema.hasReadableRequired {v : Value} (h : FieldSchema v) :
    hasReadableRequired v = true := by
  induction h with
  | obj hitems hrequired _ ih =>
    apply hasReadableRequired_of_properties
    · rw [itemSchema?, hitems]
    · rw [requiredNames?, hrequired]
      rfl
    · exact ih

/-! ## 4. The document -/

/-- Required names that are strings can be read. -/
theorem exists_specRequired (names : List String) {required : List Value}
    (h : ∀ v ∈ required, v.string?.isSome = true) :
    ∃ names', specRequired names required = .ok names' := by
  induction required generalizing names with
  | nil => exact ⟨names, rfl⟩
  | cons v rest ih =>
    obtain ⟨hv, hrest⟩ := List.forall_mem_cons.mp h
    cases v with
    | str dotted =>
      rw [specRequired]
      split
      · exact ih _ hrest
      · exact ih _ hrest
    | _ => cases hv

/-- The members of the section `spec`. -/
def specMembers (info : TypeInfo) (required : List String) : Members :=
  [("type", .str "object"),
   ("description", .str (info.displayName ++ " specification")),
   ("properties", .obj (specProperties info.fields)),
   ("additionalProperties", .bool true)]
  ++ (if required.isEmpty then [] else [("required", .arr (required.map .str))])

theorem propertySchemas_specMembers (info : TypeInfo) (required : List String) :
    propertySchemas (specMembers info required) = specProperties info.fields := by
  simp [specMembers, propertySchemas, Members.find?_cons]

/-- Where the required fields are strings, the document has its two sections. -/
theorem generate_eq (type : String) {info : TypeInfo} {required : List String}
    (h : specRequired [] info.userRequired = .ok required) :
    generate type info = .ok (schemaDocument type ("F5 XC " ++ info.displayName) info.description
      (.obj (specMembers info required))) := by
  rw [generate, specSection, h]
  rfl

theorem hasReadableRequired_specMembers (info : TypeInfo) (required : List String) :
    hasReadableRequired (.obj (specMembers info required)) = true := by
  apply hasReadableRequired_of_properties
  · cases required <;> rfl
  · cases required <;> rfl
  · rw [propertySchemas_specMembers]
    intro m hm
    exact (fieldSchema_specProperties info.fields m hm).hasReadableRequired

theorem hasReadableRequired_metadataSection : hasReadableRequired metadataSection = true := by
  have hleaf : ∀ {schema : Members}, Members.find? "items" schema = none →
      Members.find? "required" schema = none → propertySchemas schema = [] →
      hasReadableRequired (.obj schema) = true := by
    intro schema hitems hrequired hproperties
    apply FieldSchema.hasReadableRequired
    refine .obj hitems hrequired ?_
    simp [hproperties]
  apply hasReadableRequired_of_properties
  · rfl
  · rfl
  · simp [described, stringMap, propertySchemas, Members.find?_cons, requiredKeyword,
      recommendedKeyword, hleaf]

/-- A tree is built from the document. -/
theorem build_schemaDocument (type title description : String) {spec : Value}
    (h : hasReadableRequired spec = true) :
    build (schemaDocument type title description spec)
      = .ok (Node.ofSchema (schemaDocument type title description spec)) := by
  have hread : hasReadableRequired (schemaDocument type title description spec) = true := by
    apply hasReadableRequired_of_properties
    · rfl
    · rfl
    · simp [propertySchemas, Members.find?_cons, hasReadableRequired_metadataSection, h]
  rw [schemaDocument] at hread ⊢
  rw [build, if_pos hread]

/-- Below `spec` the tree of the document is that of the section. -/
theorem navigate?_schemaDocument (type title description : String) (spec : Value)
    (path : List String) :
    (Node.ofSchema (schemaDocument type title description spec)).navigate? ("spec" :: path)
      = (subschemaAt? spec path).map Node.ofSchema := by
  have hstep : subschema? (schemaDocument type title description spec) "spec" = some spec := by
    simp [schemaDocument, subschema?, describesObject, propertySchemas, Members.find?_cons]
  rw [Node.navigate?_ofSchema, subschemaAt?, hstep, Option.bind_some]

/-! ## 5. The tree -/

/-- The type tags that a type keyword declares. -/
def declaredTags : Value → List String
  | .str tag => [tag]
  | .arr tags => tags.filterMap Value.string?
  | _ => []

theorem typeTags_of_inferType {schema : Members} {v : Value}
    (h : Members.find? "type" schema = some (inferType v)) :
    typeTags schema = declaredTags (inferType v) := by
  rw [typeTags, h]
  cases v <;> rfl

/-- Below `spec` the tree of a generated document is walked along the schemas of the fields. -/
theorem navigate?_generated (type : String) (info : TypeInfo) (required path : List String) :
    (Node.ofSchema (schemaDocument type ("F5 XC " ++ info.displayName) info.description
        (.obj (specMembers info required)))).navigate? ("spec" :: path)
      = (schemaAt? (specMembers info required) path).map fun schema =>
          Node.ofSchema (.obj schema) := by
  have hstep : ∀ name, subschema? (.obj (specMembers info required)) name
      = Members.find? name (propertySchemas (specMembers info required)) := by
    intro name
    have hobject : describesObject (specMembers info required) = true := by
      simp [describesObject, specMembers, Members.find?_cons]
    rw [subschema?, if_pos hobject]
  have hfields : ∀ m ∈ propertySchemas (specMembers info required), FieldSchema m.2 := by
    rw [propertySchemas_specMembers]
    exact fieldSchema_specProperties info.fields
  rw [navigate?_schemaDocument, subschemaAt?_eq hstep hfields, Option.map_map]
  rfl

section Tree

variable {fields : List (List String × FieldHints)} {spec : Members}

/-- What leads on to a field is an object. -/
theorem LaidOut.isObject (h : LaidOut fields spec) {f : List String × FieldHints} (hf : f ∈ fields)
    {q : List String} (hq : q ≠ []) (hleads : q <+: f.1) (hne : q ≠ f.1) :
    ∃ schema, schemaAt? spec q = some schema ∧ (Node.ofSchema (.obj schema)).isObject = true := by
  obtain ⟨schema, hat⟩ := h.exists_schemaAt hf hleads
  refine ⟨schema, hat, ?_⟩
  rw [Node.isObject_ofSchema, describesObject, h.leadsOn q schema hq hat ⟨f, hf, hleads, hne⟩,
    Bool.true_or]

/-- The node of a field carries the hints of the field. -/
structure Carries (n : Node) (hints : FieldHints) : Prop where
  recommended : n.hints.recommended = hints.recommended
  serverDefault : n.hints.serverDefault = hints.serverDefault
  /-- The default, or else the value to recommend. -/
  default : n.hints.default = (hints.default <|> hints.recommended)

theorem LaidOut.carries (h : LaidOut fields spec) {f : List String × FieldHints} (hf : f ∈ fields)
    {schema : Members} (hat : schemaAt? spec f.1 = some schema) :
    Carries (Node.ofSchema (.obj schema)) f.2 := by
  have hkeyword := h.keyword f hf schema hat
  constructor <;> rw [Node.hints_ofSchema]
  · rw [← find?_recommended_fieldKeywords f.2,
      ← hkeyword recommendedKeyword (by decide) (by decide)]
    rfl
  · have hserver := hkeyword serverDefaultKeyword (by decide) (by decide)
    rw [find?_serverDefault_fieldKeywords] at hserver
    rw [Hints.ofSchema, hserver]
    cases f.2.serverDefault <;> rfl
  · rw [← find?_default_fieldKeywords f.2, ← hkeyword "default" (by decide) (by decide)]
    rfl

/-- A field that leads on to no other has the type of its default. -/
theorem LaidOut.types (h : LaidOut fields spec) {f : List String × FieldHints} (hf : f ∈ fields)
    (hend : ∀ g ∈ fields, f.1 <+: g.1 → g.1 = f.1) {schema : Members}
    (hat : schemaAt? spec f.1 = some schema) :
    (Node.ofSchema (.obj schema)).hints.types
      = (((f.2.default <|> f.2.recommended).map fun v => declaredTags (inferType v)).getD
          ["string"]) := by
  have htype := h.type f hf hend schema hat
  rw [find?_type_fieldKeywords] at htype
  rw [Node.hints_ofSchema, Hints.ofSchema]
  cases hvalue : (f.2.default <|> f.2.recommended) with
  | none =>
    rw [hvalue] at htype
    simp [typeTags, htype]
  | some v =>
    rw [hvalue] at htype
    exact typeTags_of_inferType htype

end Tree

/-- **The tree of a generated document has exactly the fields of the metadata.**  The document is
generated and a tree is built from it.  Below `spec` there is a node just where the path of a field
leads; what leads on to a field is an object; the node of a field carries its hints, and the type of
its default where it leads on to no other field.  The fields are a mapping, and the names of the
fields that users have to give are strings, as the type of the metadata asks. -/
theorem fields_of_generated (type : String) {info : TypeInfo}
    (hfields : (Members.names info.fields).Nodup)
    (hrequired : ∀ v ∈ info.userRequired, v.string?.isSome = true) :
    ∃ document root, generate type info = .ok document ∧ build document = .ok root
      ∧ (∀ q, (root.navigate? ("spec" :: q)).isSome = true
        ↔ q = [] ∨ ∃ f ∈ info.fields, ∃ names, Addresses f.1 names ∧ q <+: names)
      ∧ ∀ f ∈ info.fields, ∀ names, Addresses f.1 names →
        (∀ q, q <+: names → q ≠ names →
          ∃ n, root.navigate? ("spec" :: q) = some n ∧ n.isObject = true)
        ∧ ∃ n, root.navigate? ("spec" :: names) = some n
          ∧ n.hints.recommended = f.2.recommended
          ∧ n.hints.serverDefault = f.2.serverDefault
          ∧ n.hints.default = (f.2.default <|> f.2.recommended)
          ∧ ((∀ g ∈ info.fields, ∀ others, Addresses g.1 others → names <+: others →
              others = names) →
            n.hints.types
              = (((f.2.default <|> f.2.recommended).map fun v => declaredTags (inferType v)).getD
                  ["string"])) := by
  obtain ⟨required, hnames⟩ := exists_specRequired [] hrequired
  have hlaid : LaidOut (placedFields info.fields) (specMembers info required) :=
    (laidOut_specProperties hfields).congr (by simp [propertySchemas_specMembers])
  have hnavigate := navigate?_generated type info required
  refine ⟨_, _, generate_eq type hnames,
    build_schemaDocument _ _ _ (hasReadableRequired_specMembers info required), ?_, ?_⟩
  · intro q
    rw [hnavigate, Option.isSome_map, hlaid.found q, exists_placedFields_iff]
  · intro f hf names haddress
    have hplaced : (names, f.2) ∈ placedFields info.fields :=
      mem_placedFields.mpr ⟨f, hf, haddress, rfl⟩
    refine ⟨?_, ?_⟩
    · intro q hleads hne
      by_cases hq : q = []
      · subst hq
        refine ⟨_, hnavigate [], ?_⟩
        rw [Node.isObject_ofSchema]
        simp [describesObject, specMembers, Members.find?_cons]
      · obtain ⟨schema, hat, hobject⟩ := hlaid.isObject hplaced hq hleads hne
        exact ⟨_, by rw [hnavigate, hat]; rfl, hobject⟩
    · obtain ⟨schema, hat⟩ := hlaid.exists_schemaAt hplaced (List.prefix_refl names)
      have hcarries := hlaid.carries hplaced hat
      refine ⟨_, by rw [hnavigate, hat]; rfl, hcarries.recommended, hcarries.serverDefault,
        hcarries.default, ?_⟩
      intro hend
      refine hlaid.types hplaced ?_ hat
      intro g hg hleads
      obtain ⟨g', hg', haddress', -⟩ := mem_placedFields.mp hg
      exact hend g' hg' g.1 haddress' hleads

/-- A type with a field inside another one that is listed after it, a field with an empty name, and
one that is not below `spec`. -/
def TypeInfo.sample : TypeInfo where
  displayName := "Pool"
  fields := [("spec.port.number", { default := some (.int 80), serverDefault := true }),
    ("spec.port", { recommended := some .null }), ("spec.", {}), ("name", {})]
  userRequired := [.str "spec.port.number"]

theorem fields_of_generated_sample :
    (Members.names TypeInfo.sample.fields).Nodup
      ∧ (∀ v ∈ TypeInfo.sample.userRequired, v.string?.isSome = true)
      ∧ ∃ document root, generate "pool" TypeInfo.sample = .ok document
        ∧ build document = .ok root
        ∧ (root.navigate? ["spec", "port", "name"]).isSome = false
        ∧ (∃ n, root.navigate? ["spec", "port"] = some n ∧ n.isObject = true)
        ∧ ∃ n, root.navigate? ["spec", "port", "number"] = some n
          ∧ n.hints.default = some (.int 80) ∧ n.hints.types = ["integer"] := by
  have hfields : (Members.names TypeInfo.sample.fields).Nodup := by decide
  have hrequired : ∀ v ∈ TypeInfo.sample.userRequired, v.string?.isSome = true := by
    simp [TypeInfo.sample, Value.string?]
  obtain ⟨document, root, hgenerate, hbuild, hfound, hnodes⟩ :=
    fields_of_generated "pool" hfields hrequired
  have haddress : Addresses "spec.port.number" ["port", "number"] :=
    ⟨by decide, by decide, by decide⟩
  have hpaths : ∀ g ∈ TypeInfo.sample.fields, ∀ names, Addresses g.1 names →
      names ∈ [["port", "number"], ["port"], [""]] := by
    intro g hg names hnames
    rw [← specPath?_eq_some_iff] at hnames
    simp only [TypeInfo.sample, List.mem_cons, List.not_mem_nil, or_false] at hg
    rcases hg with rfl | rfl | rfl | rfl
    · have hpath : specPath? "spec.port.number" = some ["port", "number"] := by decide
      simp_all
    · have hpath : specPath? "spec.port" = some ["port"] := by decide
      simp_all
    · have hpath : specPath? "spec." = some [""] := by decide
      simp_all
    · have hpath : specPath? "name" = none := by decide
      simp_all
  obtain ⟨hbefore, n, hn, -, -, hdefault, htypes⟩ :=
    hnodes _ List.mem_cons_self _ haddress
  refine ⟨hfields, hrequired, document, root, hgenerate, hbuild, ?_, ?_, n, hn, hdefault, ?_⟩
  · rw [Bool.eq_false_iff, ne_eq, hfound ["port", "name"]]
    rintro (hnil | ⟨g, hg, names, hnames, hleads⟩)
    · cases hnil
    · have hmem := hpaths g hg names hnames
      simp only [List.mem_cons, List.not_mem_nil, or_false] at hmem
      rcases hmem with rfl | rfl | rfl <;> exact absurd hleads (by decide)
  · exact hbefore ["port"] (by decide) (by decide)
  · apply htypes
    intro g hg others hothers hleads
    have hmem := hpaths g hg others hothers
    simp only [List.mem_cons, List.not_mem_nil, or_false] at hmem
    rcases hmem with rfl | rfl | rfl
    · rfl
    · exact absurd hleads (by decide)
    · exact absurd hleads (by decide)

end SchemaAssist.Resource
