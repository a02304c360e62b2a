/-
# What placing a field changes

A field is placed by merging its keywords into the schema at its path and by turning the schemas on
the way there into objects.  `schemaAt?` looks a schema up by its path, and three statements say
what placing a field at `path` does to the schema at `q`:

* `schemaAt?_grow_self`: at `path` the keywords are merged over what was there;
* `schemaAt?_grow_append`: on the way there it becomes an object, in which the field is placed;
* `schemaAt?_grow_elsewhere`: everywhere else nothing changes.

`LaidOut` is what holds of a section after some fields have been placed, in any order and with paths
that may be prefixes of each other.  `LaidOut.grow` is the step of one field; the run over all of
them is `laidOut_specProperties`, where the section is generated.
-/
import SchemaAssist.Resource.Generate

namespace SchemaAssist.Resource

open SchemaAssist.Json SchemaAssist.Schema

/-! ## 1. The keywords of a field -/

/-- The default of a field is also its recommended value where there is no other. -/
theorem find?_default_fieldKeywords (hints : FieldHints) :
    Members.find? "default" (fieldKeywords hints) = (hints.default <|> hints.recommended) := by
  obtain ⟨default, recommended, server, create⟩ := hints
  cases default <;> cases recommended <;> cases server <;> cases create <;> rfl

theorem find?_type_fieldKeywords (hints : FieldHints) :
    Members.find? "type" (fieldKeywords hints)
      = (hints.default <|> hints.recommended).map inferType := by
  obtain ⟨default, recommended, server, create⟩ := hints
  cases default <;> cases recommended <;> cases server <;> cases create <;> rfl

theorem find?_recommended_fieldKeywords (hints : FieldHints) :
    Members.find? recommendedKeyword (fieldKeywords hints) = hints.recommended := by
  obtain ⟨default, recommended, server, create⟩ := hints
  cases default <;> cases recommended <;> cases server <;> cases create <;> rfl

theorem find?_serverDefault_fieldKeywords (hints : FieldHints) :
    Members.find? serverDefaultKeyword (fieldKeywords hints)
      = if hints.serverDefault then some (.bool true) else none := by
  obtain ⟨default, recommended, server, create⟩ := hints
  cases default <;> cases recommended <;> cases server <;> cases create <;> rfl

/-- A field says nothing of what is below it, and requires nothing of it. -/
theorem find?_structure_fieldKeywords (hints : FieldHints) {keyword : String}
    (h : keyword ∈ ["properties", "items", "required"]) :
    Members.find? keyword (fieldKeywords hints) = none := by
  obtain ⟨default, recommended, server, create⟩ := hints
  simp only [List.mem_cons, List.not_mem_nil, or_false] at h
  rcases h with rfl | rfl | rfl <;> cases default <;> cases recommended <;> cases server <;>
    cases create <;> rfl

theorem nodup_names_fieldKeywords (hints : FieldHints) :
    (Members.names (fieldKeywords hints)).Nodup := by
  obtain ⟨default, recommended, server, create⟩ := hints
  cases default <;> cases recommended <;> cases server <;> cases create <;>
    simp [fieldKeywords, Members.names, optionalMember, flagMember, serverDefaultKeyword,
      requiredKeyword, recommendedKeyword]

/-- What is merged over members is found first. -/
theorem find?_merge (name : String) {new : Members} (h : (Members.names new).Nodup)
    (members : Members) :
    Members.find? name (merge members new)
      = (Members.find? name new).or (Members.find? name members) := by
  induction new generalizing members with
  | nil => rfl
  | cons m rest ih =>
    obtain ⟨k, v⟩ := m
    obtain ⟨hk, hrest⟩ := List.nodup_cons.mp h
    have hmerge : merge members ((k, v) :: rest) = merge (Members.put k v members) rest := rfl
    rw [hmerge, ih hrest, Members.find?_put, Members.find?_cons]
    by_cases hname : k = name
    · subst hname
      have habsent : Members.find? k rest = none := by
        rw [← Option.not_isSome_iff_eq_none, Members.find?_isSome_iff]
        exact hk
      simp [habsent]
    · simp [hname]

/-! ## 2. Schemas by their paths -/

/-- The schema at the end of a path through properties. -/
def schemaAt? (schema : Members) : List String → Option Members
  | [] => some schema
  | name :: path =>
    ((Members.find? name (propertySchemas schema)).bind Value.members?).bind fun inner =>
      schemaAt? inner path

/-- A schema with a field placed at a path below it. -/
def grow (keywords : Members) (path : List String) (schema : Members) : Members :=
  Members.put "properties" (.obj (place keywords path (propertySchemas schema))) schema

variable {keywords : Members} {schema : Members}

@[simp] theorem propertySchemas_put (properties : Members) :
    propertySchemas (Members.put "properties" (.obj properties) schema) = properties := by
  simp [propertySchemas, Members.find?_put]

@[simp] theorem propertySchemas_grow (path : List String) :
    propertySchemas (grow keywords path schema)
      = place keywords path (propertySchemas schema) :=
  propertySchemas_put _

theorem find?_grow {k : String} (hk : k ≠ "properties") (path : List String) :
    Members.find? k (grow keywords path schema) = Members.find? k schema := by
  rw [grow, Members.find?_put, if_neg (Ne.symm hk)]

/-- What lies below a schema depends on its properties only. -/
theorem schemaAt?_congr {schema' : Members} (h : propertySchemas schema = propertySchemas schema') :
    ∀ {q : List String}, q ≠ [] → schemaAt? schema q = schemaAt? schema' q
  | [], hq => absurd rfl hq
  | name :: q, _ => by rw [schemaAt?, schemaAt?, h]

theorem schemaAt?_cons (name : String) (q : List String) :
    schemaAt? schema (name :: q)
      = (schemaAt? schema [name]).bind fun inner => schemaAt? inner q := by
  simp [schemaAt?]

/-- Below a schema without properties there is nothing. -/
theorem schemaAt?_eq_none (h : propertySchemas schema = []) {q : List String} (hq : q ≠ []) :
    schemaAt? schema q = none := by
  cases q with
  | nil => exact absurd rfl hq
  | cons name q => simp [schemaAt?, h]

/-- Below the schema at a name, or below one without properties where there is none. -/
theorem schemaAt?_getD {otherwise : Members} (h : propertySchemas otherwise = []) (name : String)
    {q : List String} (hq : q ≠ []) :
    schemaAt? ((schemaAt? schema [name]).getD otherwise) q = schemaAt? schema (name :: q) := by
  rw [schemaAt?_cons name q]
  cases schemaAt? schema [name] with
  | none => exact schemaAt?_eq_none h hq
  | some inner => rfl

theorem find?_asObject {k : String} (hk : k ≠ "type") :
    Members.find? k (asObject schema) = Members.find? k schema := by
  unfold asObject
  split
  · rfl
  · rw [Members.find?_put, if_neg (Ne.symm hk)]

theorem propertySchemas_asObject : propertySchemas (asObject schema) = propertySchemas schema := by
  rw [propertySchemas, find?_asObject (by decide), propertySchemas]

theorem propertySchemas_merge (hints : FieldHints) :
    propertySchemas (merge schema (fieldKeywords hints)) = propertySchemas schema := by
  rw [propertySchemas, find?_merge _ (nodup_names_fieldKeywords hints),
    find?_structure_fieldKeywords hints (by simp), Option.none_or, propertySchemas]

theorem schemaMembers_properties :
    schemaMembers (Members.find? "properties" schema) [] = propertySchemas schema := by
  rw [schemaMembers, propertySchemas]
  cases Members.find? "properties" schema with
  | none => rfl
  | some v => cases v <;> rfl

/-- The schema at one name, or the one that a field starts from where there is none. -/
theorem schemaMembers_find? (name : String) (otherwise : Members) :
    schemaMembers (Members.find? name (propertySchemas schema)) otherwise
      = (schemaAt? schema [name]).getD otherwise := by
  simp [schemaMembers, schemaAt?]

theorem place_cons {part : String} {path : List String} (h : path ≠ []) (properties : Members) :
    place keywords (part :: path) properties
      = Members.put part (.obj (grow keywords path
          (asObject (schemaMembers (Members.find? part properties) emptyObject)))) properties := by
  obtain ⟨name, rest, rfl⟩ := List.exists_cons_of_ne_nil h
  rw [place, grow, schemaMembers_properties]
  exact List.cons_ne_nil name rest

/-! ## 3. What placing a field changes -/

/-- The schema of a name on the way to a field, from which the field is placed on. -/
def opened (schema : Members) (name : String) : Members :=
  asObject ((schemaAt? schema [name]).getD emptyObject)

theorem schemaAt?_opened (name : String) {q : List String} (hq : q ≠ []) :
    schemaAt? (opened schema name) q = schemaAt? schema (name :: q) := by
  have hempty : propertySchemas emptyObject = [] := by
    simp [propertySchemas, emptyObject, Members.find?_cons]
  rw [opened, schemaAt?_congr propertySchemas_asObject hq, schemaAt?_getD hempty name hq]

/-- Placing a field goes through the first name of its path. -/
theorem schemaAt?_grow_cons {path : List String} (h : path ≠ []) (part : String)
    (q : List String) :
    schemaAt? (grow keywords (part :: path) schema) (part :: q)
      = schemaAt? (grow keywords path (opened schema part)) q := by
  rw [schemaAt?, propertySchemas_grow, place_cons h, Members.find?_put, if_pos rfl,
    schemaMembers_find?]
  rfl

/-- Under other names nothing changes. -/
theorem schemaAt?_grow_cons_ne {part name : String} (h : part ≠ name) (path q : List String) :
    schemaAt? (grow keywords (part :: path) schema) (name :: q) = schemaAt? schema (name :: q) := by
  have hfind : Members.find? name (place keywords (part :: path) (propertySchemas schema))
      = Members.find? name (propertySchemas schema) := by
    by_cases hpath : path = []
    · rw [hpath, place, Members.find?_put, if_neg h]
    · rw [place_cons hpath, Members.find?_put, if_neg h]
  rw [schemaAt?, propertySchemas_grow, hfind, schemaAt?]

/-- At the end of a path of one name the keywords are merged in. -/
theorem schemaAt?_grow_singleton (leaf : String) (q : List String) :
    schemaAt? (grow keywords [leaf] schema) (leaf :: q)
      = schemaAt? (merge ((schemaAt? schema [leaf]).getD [("type", .str "string")]) keywords)
          q := by
  rw [schemaAt?, propertySchemas_grow, place, Members.find?_put, if_pos rfl, schemaMembers_find?]
  rfl

/-- **At its path the keywords of a field are merged over what was there.** -/
theorem schemaAt?_grow_self : ∀ {path : List String} {schema : Members}, path ≠ [] →
    schemaAt? (grow keywords path schema) path
      = some (merge ((schemaAt? schema path).getD [("type", .str "string")]) keywords)
  | [], _, h => absurd rfl h
  | [leaf], schema, _ => by rw [schemaAt?_grow_singleton, schemaAt?]
  | part :: name :: path, schema, _ => by
    have hne : name :: path ≠ [] := List.cons_ne_nil name path
    rw [schemaAt?_grow_cons hne, schemaAt?_grow_self hne, schemaAt?_opened part hne]

/-- **On the way to its path there is an object, in which the field is placed.** -/
theorem schemaAt?_grow_append {r : List String} (hr : r ≠ []) :
    ∀ {q : List String} {schema : Members}, q ≠ [] →
      schemaAt? (grow keywords (q ++ r) schema) q
        = some (grow keywords r (asObject ((schemaAt? schema q).getD emptyObject)))
  | [], _, h => absurd rfl h
  | [part], schema, _ => by
    rw [List.singleton_append, schemaAt?_grow_cons hr]
    rfl
  | part :: name :: q, schema, _ => by
    have hne : name :: q ≠ [] := List.cons_ne_nil name q
    rw [List.cons_append, schemaAt?_grow_cons (List.append_ne_nil_of_left_ne_nil hne r),
      schemaAt?_grow_append hr hne, schemaAt?_opened part hne]

/-- **Where the path of a field does not lead, nothing changes.** -/
theorem schemaAt?_grow_elsewhere (hints : FieldHints) :
    ∀ {path q : List String} {schema : Members}, ¬ q <+: path →
      schemaAt? (grow (fieldKeywords hints) path schema) q = schemaAt? schema q
  | _, [], _, h => absurd List.nil_prefix h
  | [], name :: q, schema, _ => by
    apply schemaAt?_congr
    · rw [propertySchemas_grow, place]
    · exact List.cons_ne_nil name q
  | part :: path, name :: q, schema, h => by
    by_cases hname : part = name
    · subst hname
      have hq : ¬ q <+: path := by
        intro hleads
        exact h (List.cons_prefix_cons.mpr ⟨rfl, hleads⟩)
      have hne : q ≠ [] := by
        rintro rfl
        exact hq List.nil_prefix
      by_cases hpath : path = []
      · subst hpath
        rw [schemaAt?_grow_singleton, schemaAt?_congr (propertySchemas_merge hints) hne,
          schemaAt?_getD (by simp [propertySchemas, Members.find?_cons]) part hne]
      · rw [schemaAt?_grow_cons hpath, schemaAt?_grow_elsewhere hints hq,
          schemaAt?_opened part hne]
    · exact schemaAt?_grow_cons_ne hname path q

/-- The schema that a field leaves at a path: the three statements above, read backwards. -/
theorem schemaAt?_grow_cases {hints : FieldHints} {path q : List String} (hq : q ≠ [])
    {found : Members} (h : schemaAt? (grow (fieldKeywords hints) path schema) q = some found) :
    (q = path ∧ found = merge ((schemaAt? schema q).getD [("type", .str "string")])
      (fieldKeywords hints))
    ∨ (∃ r, r ≠ [] ∧ path = q ++ r ∧ found = grow (fieldKeywords hints) r
      (asObject ((schemaAt? schema q).getD emptyObject)))
    ∨ (¬ q <+: path ∧ schemaAt? schema q = some found) := by
  by_cases hleads : q <+: path
  · obtain ⟨r, rfl⟩ := hleads
    by_cases hr : r = []
    · subst hr
      rw [List.append_nil, schemaAt?_grow_self hq] at h
      exact .inl ⟨(List.append_nil q).symm, (Option.some.inj h).symm⟩
    · rw [schemaAt?_grow_append hr hq] at h
      exact .inr (.inl ⟨r, hr, rfl, (Option.some.inj h).symm⟩)
  · rw [schemaAt?_grow_elsewhere hints hleads] at h
    exact .inr (.inr ⟨hleads, h⟩)

/-! ## 4. A section with fields -/

/-- A section in which fields have been placed at their paths. -/
structure LaidOut (fields : List (List String × FieldHints)) (spec : Members) : Prop where
  ne_nil : ∀ f ∈ fields, f.1 ≠ []
  /-- There is a schema just where the path of a field leads. -/
  found : ∀ q, (schemaAt? spec q).isSome = true ↔ q = [] ∨ ∃ f ∈ fields, q <+: f.1
  /-- At the path of a field stand its keywords, apart from its type. -/
  keyword : ∀ f ∈ fields, ∀ schema, schemaAt? spec f.1 = some schema →
    ∀ k, k ≠ "type" → k ≠ "properties" →
      Members.find? k schema = Members.find? k (fieldKeywords f.2)
  /-- Between the section and its fields there are no keywords of a field. -/
  bare : ∀ q schema, q ≠ [] → schemaAt? spec q = some schema → (∀ f ∈ fields, f.1 ≠ q) →
    ∀ k, k ≠ "type" → k ≠ "properties" → Members.find? k schema = none
  /-- What leads on to a field has properties. -/
  leadsOn : ∀ q schema, q ≠ [] → schemaAt? spec q = some schema →
    (∃ f ∈ fields, q <+: f.1 ∧ q ≠ f.1) → (Members.find? "properties" schema).isSome = true
  /-- A field that leads on to no other has its own type, or else that of a string. -/
  type : ∀ f ∈ fields, (∀ g ∈ fields, f.1 <+: g.1 → g.1 = f.1) →
    ∀ schema, schemaAt? spec f.1 = some schema →
      Members.find? "type" schema
        = some ((Members.find? "type" (fieldKeywords f.2)).getD (.str "string"))

theorem laidOut_nil {spec : Members} (h : propertySchemas spec = []) : LaidOut [] spec where
  ne_nil f hf := absurd hf List.not_mem_nil
  found q := by
    by_cases hq : q = []
    · simp [hq, schemaAt?]
    · simp [hq, schemaAt?_eq_none h hq]
  keyword f hf := absurd hf List.not_mem_nil
  bare q schema hq hschema := by
    rw [schemaAt?_eq_none h hq] at hschema
    cases hschema
  leadsOn q schema hq hschema := by
    rw [schemaAt?_eq_none h hq] at hschema
    cases hschema
  type f hf := absurd hf List.not_mem_nil

namespace LaidOut

variable {fields : List (List String × FieldHints)} {spec : Members} {path : List String}

/-- What holds of a section depends on its properties only. -/
theorem congr {spec' : Members} (h : LaidOut fields spec)
    (hprops : propertySchemas spec = propertySchemas spec') : LaidOut fields spec' where
  ne_nil := h.ne_nil
  found q := by
    by_cases hq : q = []
    · simp [hq, schemaAt?]
    · rw [← schemaAt?_congr hprops hq]
      exact h.found q
  keyword f hf schema hschema := by
    rw [← schemaAt?_congr hprops (h.ne_nil f hf)] at hschema
    exact h.keyword f hf schema hschema
  bare q schema hq hschema := by
    rw [← schemaAt?_congr hprops hq] at hschema
    exact h.bare q schema hq hschema
  leadsOn q schema hq hschema := by
    rw [← schemaAt?_congr hprops hq] at hschema
    exact h.leadsOn q schema hq hschema
  type f hf hlast schema hschema := by
    rw [← schemaAt?_congr hprops (h.ne_nil f hf)] at hschema
    exact h.type f hf hlast schema hschema

/-- Where the path of a field leads, there is a schema. -/
theorem exists_schemaAt (h : LaidOut fields spec) {f : List String × FieldHints} (hf : f ∈ fields)
    {q : List String} (hq : q <+: f.1) : ∃ schema, schemaAt? spec q = some schema :=
  Option.isSome_iff_exists.mp ((h.found q).mpr (.inr ⟨f, hf, hq⟩))

section Step

variable (h : LaidOut fields spec) (hpath : path ≠ []) (hnew : ∀ f ∈ fields, f.1 ≠ path)
  (hints : FieldHints)

include h hpath

theorem found_grow (q : List String) :
    (schemaAt? (Resource.grow (fieldKeywords hints) path spec) q).isSome = true
      ↔ q = [] ∨ ∃ f ∈ fields ++ [(path, hints)], q <+: f.1 := by
  by_cases hq : q = []
  · simp [hq, schemaAt?]
  by_cases hleads : q <+: path
  · have hfound : (schemaAt? (Resource.grow (fieldKeywords hints) path spec) q).isSome = true := by
      obtain ⟨r, rfl⟩ := hleads
      by_cases hr : r = []
      · rw [hr, List.append_nil, schemaAt?_grow_self hq]
        rfl
      · rw [schemaAt?_grow_append hr hq]
        rfl
    simp [hfound, hleads]
  · rw [schemaAt?_grow_elsewhere hints hleads, h.found q]
    simp [hleads, or_and_right, exists_or]

variable {schema : Members}

include hnew

/-- At the path of the new field stand its keywords, and the type that was there without it. -/
theorem keyword_grow_self
    (hschema : schemaAt? (Resource.grow (fieldKeywords hints) path spec) path = some schema)
    {k : String} (htype : k ≠ "type") (hprops : k ≠ "properties") :
    Members.find? k schema = Members.find? k (fieldKeywords hints) := by
  rw [schemaAt?_grow_self hpath, Option.some.injEq] at hschema
  rw [← hschema, find?_merge k (nodup_names_fieldKeywords hints)]
  -- What was at the path before belongs to no field, so it has no such keyword.
  have hbare : Members.find? k ((schemaAt? spec path).getD [("type", .str "string")]) = none := by
    cases hat : schemaAt? spec path with
    | none => simp [Members.find?_cons, Ne.symm htype]
    | some old => exact h.bare path old hpath hat hnew k htype hprops
  rw [hbare, Option.or_none]

theorem keyword_grow {f : List String × FieldHints} (hf : f ∈ fields ++ [(path, hints)])
    (hschema : schemaAt? (Resource.grow (fieldKeywords hints) path spec) f.1 = some schema)
    {k : String} (htype : k ≠ "type") (hprops : k ≠ "properties") :
    Members.find? k schema = Members.find? k (fieldKeywords f.2) := by
  rcases List.mem_append.mp hf with hold | hlast
  · obtain ⟨old, hat⟩ := h.exists_schemaAt hold (List.prefix_refl f.1)
    have hkeyword := h.keyword f hold old hat k htype hprops
    rcases schemaAt?_grow_cases (h.ne_nil f hold) hschema with
      ⟨heq, -⟩ | ⟨r, -, -, rfl⟩ | ⟨-, hsame⟩
    · exact absurd heq (hnew f hold)
    · rw [find?_grow hprops, find?_asObject htype, hat]
      exact hkeyword
    · exact h.keyword f hold schema hsame k htype hprops
  · obtain rfl := List.mem_singleton.mp hlast
    exact keyword_grow_self h hpath hnew hints hschema htype hprops

omit hnew in
theorem bare_grow {q : List String} (hq : q ≠ [])
    (hschema : schemaAt? (Resource.grow (fieldKeywords hints) path spec) q = some schema)
    (hnone : ∀ f ∈ fields ++ [(path, hints)], f.1 ≠ q) {k : String} (htype : k ≠ "type")
    (hprops : k ≠ "properties") : Members.find? k schema = none := by
  have hold : ∀ f ∈ fields, f.1 ≠ q := by
    intro f hf
    exact hnone f (List.mem_append_left _ hf)
  rcases schemaAt?_grow_cases hq hschema with ⟨rfl, -⟩ | ⟨r, -, -, rfl⟩ | ⟨-, hsame⟩
  · exact absurd rfl (hnone (q, hints) (by simp))
  · rw [find?_grow hprops, find?_asObject htype]
    cases hat : schemaAt? spec q with
    | none => simp [emptyObject, Members.find?_cons, Ne.symm htype, Ne.symm hprops]
    | some old => exact h.bare q old hq hat hold k htype hprops
  · exact h.bare q schema hq hsame hold k htype hprops

omit hnew in
theorem leadsOn_grow {q : List String} (hq : q ≠ [])
    (hschema : schemaAt? (Resource.grow (fieldKeywords hints) path spec) q = some schema)
    (hon : ∃ f ∈ fields ++ [(path, hints)], q <+: f.1 ∧ q ≠ f.1) :
    (Members.find? "properties" schema).isSome = true := by
  obtain ⟨f, hf, hleads, hne⟩ := hon
  rcases schemaAt?_grow_cases hq hschema with ⟨rfl, rfl⟩ | ⟨r, -, -, rfl⟩ | ⟨hnot, hsame⟩
  · rcases List.mem_append.mp hf with hold | hlast
    · obtain ⟨old, hat⟩ := h.exists_schemaAt hold hleads
      rw [hat, Option.getD_some, find?_merge _ (nodup_names_fieldKeywords hints),
        find?_structure_fieldKeywords hints (by simp), Option.none_or]
      exact h.leadsOn q old hq hat ⟨f, hold, hleads, hne⟩
    · obtain rfl := List.mem_singleton.mp hlast
      exact absurd rfl hne
  · rw [Resource.grow, Members.find?_put, if_pos rfl]
    rfl
  · rcases List.mem_append.mp hf with hold | hlast
    · exact h.leadsOn q schema hq hsame ⟨f, hold, hleads, hne⟩
    · obtain rfl := List.mem_singleton.mp hlast
      exact absurd hleads hnot

theorem type_grow {f : List String × FieldHints} (hf : f ∈ fields ++ [(path, hints)])
    (hend : ∀ g ∈ fields ++ [(path, hints)], f.1 <+: g.1 → g.1 = f.1)
    (hschema : schemaAt? (Resource.grow (fieldKeywords hints) path spec) f.1 = some schema) :
    Members.find? "type" schema
      = some ((Members.find? "type" (fieldKeywords f.2)).getD (.str "string")) := by
  rcases List.mem_append.mp hf with hold | hlast
  · rcases schemaAt?_grow_cases (h.ne_nil f hold) hschema with
      ⟨heq, -⟩ | ⟨r, hr, rfl, -⟩ | ⟨-, hsame⟩
    · exact absurd heq (hnew f hold)
    · exact absurd (hend (f.1 ++ r, hints) (by simp) (List.prefix_append f.1 r)).symm
        (hnew f hold)
    · refine h.type f hold ?_ schema hsame
      intro g hg
      exact hend g (List.mem_append_left _ hg)
  · obtain rfl := List.mem_singleton.mp hlast
    -- No field leads through the path of the new one, so it starts from the type of a string.
    have hnone : schemaAt? spec path = none := by
      rw [← Option.not_isSome_iff_eq_none, h.found path]
      rintro (hnil | ⟨g, hg, hleads⟩)
      · exact hpath hnil
      · exact hnew g hg (hend g (List.mem_append_left _ hg) hleads)
    rw [schemaAt?_grow_self hpath, hnone, Option.some.injEq] at hschema
    rw [← hschema, find?_merge _ (nodup_names_fieldKeywords hints)]
    cases Members.find? "type" (fieldKeywords hints) <;> rfl

/-- **One more field.** -/
theorem grow :
    LaidOut (fields ++ [(path, hints)]) (Resource.grow (fieldKeywords hints) path spec) where
  ne_nil f hf := by
    rcases List.mem_append.mp hf with hold | hlast
    · exact h.ne_nil f hold
    · rw [List.mem_singleton.mp hlast]
      exact hpath
  found := h.found_grow hpath hints
  keyword _ hf _ hschema _ := h.keyword_grow hpath hnew hints hf hschema
  bare _ _ hq hschema hnone _ := h.bare_grow hpath hints hq hschema hnone
  leadsOn _ _ hq hschema := h.leadsOn_grow hpath hints hq hschema
  type _ hf hend _ hschema := h.type_grow hpath hnew hints hf hend hschema

end Step

end LaidOut

end SchemaAssist.Resource
