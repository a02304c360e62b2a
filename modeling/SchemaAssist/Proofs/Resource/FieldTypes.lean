/-
# The types on the way to a field

Whatever leads on to a field is an object with properties, but its type tag need not say so.  A
field that is placed below a schema makes the type that of an object; a field that is placed at the
schema itself, and has a value, makes it the type of the value.  So the last of them decides
(`lastSaid`), and the tag depends on the order in which the fields are listed:

* `typesSaid_specProperties`: the type keyword of every schema in the section;
* `types_of_generated`: the type tags of every node on the way to a field, which are those of an
  object unless a field with a value stands there and comes after all fields below it;
* `types_of_generated_overlapping`: the same two fields in both orders.
-/
import SchemaAssist.Proofs.Resource.GeneratedTree

namespace SchemaAssist.Resource

open SchemaAssist.Json SchemaAssist.Schema

/-! ## 1. What the fields say of a type -/

/-- What placing a field makes of the type of the schema at `q`, if it changes it. -/
def typeSaid (q : List String) (f : List String × FieldHints) : Option Value :=
  if f.1 = q then (f.2.default <|> f.2.recommended).map inferType
  else if q <+: f.1 then some (.str "object")
  else none

/-- What the last field that says something says. -/
def lastSaid (fields : List (List String × FieldHints)) (q : List String) : Option Value :=
  fields.reverse.findSome? (typeSaid q)

theorem lastSaid_append_singleton (fields : List (List String × FieldHints))
    (f : List String × FieldHints) (q : List String) :
    lastSaid (fields ++ [f]) q = (typeSaid q f).or (lastSaid fields q) := by
  rw [lastSaid, List.reverse_append, List.findSome?_append]
  simp [lastSaid]

/-- A field says nothing of what it does not lead through. -/
theorem typeSaid_eq_none {q : List String} {f : List String × FieldHints} (h : ¬ q <+: f.1) :
    typeSaid q f = none := by
  have hne : f.1 ≠ q := by
    rintro rfl
    exact h (List.prefix_refl f.1)
  rw [typeSaid, if_neg hne, if_neg h]

theorem typeSaid_self (q : List String) (hints : FieldHints) :
    typeSaid q (q, hints) = Members.find? "type" (fieldKeywords hints) := by
  rw [typeSaid, if_pos rfl, find?_type_fieldKeywords]

theorem typeSaid_append {q r : List String} (hr : r ≠ []) (hints : FieldHints) :
    typeSaid q (q ++ r, hints) = some (.str "object") := by
  have hne : q ++ r ≠ q := by
    intro h
    exact hr (List.append_cancel_left (h.trans (List.append_nil q).symm))
  rw [typeSaid, if_neg hne, if_pos (List.prefix_append q r)]

/-! ## 2. The section of the fields -/

/-- In a section with these fields every schema has the type that was said last, or else that of a
string. -/
def TypesSaid (fields : List (List String × FieldHints)) (spec : Members) : Prop :=
  ∀ q, q ≠ [] → ∀ schema, schemaAt? spec q = some schema →
    Members.find? "type" schema = some ((lastSaid fields q).getD (.str "string"))

theorem TypesSaid.congr {fields : List (List String × FieldHints)} {spec spec' : Members}
    (h : TypesSaid fields spec) (hprops : propertySchemas spec = propertySchemas spec') :
    TypesSaid fields spec' := by
  intro q hq schema hschema
  rw [← schemaAt?_congr hprops hq] at hschema
  exact h q hq schema hschema

theorem find?_type_asObject (schema : Members) :
    Members.find? "type" (asObject schema) = some (.str "object") := by
  unfold asObject
  split
  · assumption
  · rw [Members.find?_put, if_pos rfl]

/-- Of what is not there no field has said anything. -/
theorem LaidOut.lastSaid_eq_none {fields : List (List String × FieldHints)} {spec : Members}
    (h : LaidOut fields spec) {q : List String} (hq : schemaAt? spec q = none) :
    lastSaid fields q = none := by
  rw [lastSaid, List.findSome?_eq_none_iff]
  intro f hf
  apply typeSaid_eq_none
  intro hleads
  obtain ⟨schema, hat⟩ := h.exists_schemaAt (List.mem_reverse.mp hf) hleads
  rw [hq] at hat
  cases hat

/-- **One more field.** -/
theorem TypesSaid.grow {fields : List (List String × FieldHints)} {spec : Members}
    (h : TypesSaid fields spec) (hlaid : LaidOut fields spec) (path : List String)
    (hints : FieldHints) :
    TypesSaid (fields ++ [(path, hints)]) (grow (fieldKeywords hints) path spec) := by
  intro q hq schema hschema
  rw [lastSaid_append_singleton]
  rcases schemaAt?_grow_cases hq hschema with ⟨rfl, rfl⟩ | ⟨r, hr, rfl, rfl⟩ | ⟨hnot, hsame⟩
  · -- The keywords of the field go over what stands there, or over the type of a string.
    have hold : Members.find? "type" ((schemaAt? spec q).getD [("type", .str "string")])
        = some ((lastSaid fields q).getD (.str "string")) := by
      cases hat : schemaAt? spec q with
      | none =>
        rw [hlaid.lastSaid_eq_none hat]
        rfl
      | some old => exact h q hq old hat
    rw [find?_merge _ (nodup_names_fieldKeywords hints), hold, typeSaid_self]
    cases Members.find? "type" (fieldKeywords hints) <;> rfl
  · rw [find?_grow (by decide), find?_type_asObject, typeSaid_append hr]
    rfl
  · rw [typeSaid_eq_none hnot, Option.none_or]
    exact h q hq schema hsame

theorem typesSaid_specProperties {fields : List (String × FieldHints)}
    (h : (Members.names fields).Nodup) :
    TypesSaid (placedFields fields) (withProperties (specProperties fields)) := by
  have hboth : LaidOut (placedFields fields) (withProperties (specProperties fields))
      ∧ TypesSaid (placedFields fields) (withProperties (specProperties fields)) := by
    refine specProperties_induct (motive := fun fields properties =>
      LaidOut fields (withProperties properties) ∧ TypesSaid fields (withProperties properties))
      ?_ ?_ h
    · refine ⟨laidOut_nil (propertySchemas_withProperties []), ?_⟩
      intro q hq schema hat
      rw [schemaAt?_eq_none (propertySchemas_withProperties []) hq] at hat
      cases hat
    · intro fields properties path hints hpath hnew ⟨hlaid, hsaid⟩
      exact ⟨(hlaid.grow hpath hnew hints).congr (by simp),
        (hsaid.grow hlaid path hints).congr (by simp)⟩
  exact hboth.2

/-! ## 3. The field that decides -/

/-- The field at `names` has a default or a recommended value, here `v`, and no field that is listed
after it leads through `names`. -/
def TypedLast (fields : List (String × FieldHints)) (names : List String) (v : Value) : Prop :=
  ∃ before f after, fields = before ++ f :: after ∧ Addresses f.1 names
    ∧ (f.2.default <|> f.2.recommended) = some v
    ∧ ∀ g ∈ after, ∀ others, Addresses g.1 others → ¬ names <+: others

theorem lastSaid_placedFields (fields : List (String × FieldHints)) (q : List String) :
    lastSaid (placedFields fields) q = fields.reverse.findSome? fun f =>
      (specPath? f.1).bind fun names => typeSaid q (names, f.2) := by
  rw [lastSaid, placedFields, ← List.filterMap_reverse, ← List.head?_filterMap,
    List.filterMap_filterMap, List.head?_filterMap]
  congr 1
  funext f
  cases specPath? f.1 <;> rfl

theorem TypedLast.lastSaid {fields : List (String × FieldHints)} {q : List String} {v : Value}
    (h : TypedLast fields q v) : lastSaid (placedFields fields) q = some (inferType v) := by
  obtain ⟨before, f, after, rfl, haddress, hvalue, hafter⟩ := h
  rw [lastSaid_placedFields, List.findSome?_eq_some_iff]
  refine ⟨after.reverse, f, before.reverse, by simp, ?_, ?_⟩
  · rw [specPath?_eq_some_iff.mpr haddress, Option.bind_some, typeSaid, if_pos rfl, hvalue]
    rfl
  · intro g hg
    rw [Option.bind_eq_none_iff]
    intro others hothers
    exact typeSaid_eq_none (hafter g (List.mem_reverse.mp hg) others
      (specPath?_eq_some_iff.mp hothers))

/-- **On the way to a field either a field with a value decides, or a field below.** -/
theorem exists_typedLast_or {fields : List (String × FieldHints)}
    (hfields : (Members.names fields).Nodup) {f : String × FieldHints} (hf : f ∈ fields)
    {q names : List String} (haddress : Addresses f.1 names) (hleads : q <+: names)
    (hne : q ≠ names) :
    (∃ v, TypedLast fields q v) ∨ lastSaid (placedFields fields) q = some (.str "object") := by
  rw [lastSaid_placedFields]
  have hbelow : ∀ {others : List String} {hints : FieldHints}, q <+: others → others ≠ q →
      typeSaid q (others, hints) = some (.str "object") := by
    intro others hints hleads hne
    rw [typeSaid, if_neg hne, if_pos hleads]
  cases hlast : fields.reverse.findSome? fun f =>
      (specPath? f.1).bind fun names => typeSaid q (names, f.2) with
  | none =>
    have hsaid := List.findSome?_eq_none_iff.mp hlast f (List.mem_reverse.mpr hf)
    rw [specPath?_eq_some_iff.mpr haddress, Option.bind_some, hbelow hleads (Ne.symm hne)] at hsaid
    cases hsaid
  | some t =>
    obtain ⟨after, g, before, hsplit, hg, hafter⟩ := List.findSome?_eq_some_iff.mp hlast
    obtain ⟨others, hothers, hsaid⟩ := Option.bind_eq_some_iff.mp hg
    have hsplit : fields = before.reverse ++ g :: after.reverse := by
      rw [← List.reverse_reverse fields, hsplit]
      simp
    by_cases heq : others = q
    · subst heq
      rw [typeSaid, if_pos rfl, Option.map_eq_some_iff] at hsaid
      obtain ⟨v, hv, -⟩ := hsaid
      have haddress := specPath?_eq_some_iff.mp hothers
      refine .inl ⟨v, before.reverse, g, after.reverse, hsplit, haddress, hv, ?_⟩
      intro x hx names hnames hleads
      have hsilent := hafter x (List.mem_reverse.mp hx)
      rw [specPath?_eq_some_iff.mpr hnames, Option.bind_some] at hsilent
      by_cases hname : names = others
      · -- No two fields have the same path.
        subst hname
        rw [hsplit, Members.names, List.map_append, List.map_cons, List.nodup_append,
          List.nodup_cons] at hfields
        refine hfields.2.1.1 ?_
        rw [haddress.unique hnames]
        exact List.mem_map_of_mem hx
      · rw [hbelow hleads hname] at hsilent
        cases hsilent
    · rw [typeSaid, if_neg heq] at hsaid
      split at hsaid
      · exact .inr (by rw [← hsaid])
      · cases hsaid

/-! ## 4. The tree -/

/-- The type that is inferred for a value is that of objects only for an object. -/
theorem primaryType_inferType_iff {h : Hints} {v : Value}
    (htypes : h.types = declaredTags (inferType v)) :
    h.primaryType = "object" ↔ v.kind = .obj := by
  rw [Hints.primaryType, htypes]
  cases v with
  | double d =>
    rw [inferType]
    split <;> simp [declaredTags, Value.kind]
  | null | bool | int | str | arr | obj => simp [inferType, declaredTags, Value.string?, Value.kind]

/-- The type tags of the node for a schema of the section. -/
theorem types_ofSchema {info : TypeInfo} {required : List String}
    (hfields : (Members.names info.fields).Nodup) {q : List String} (hq : q ≠ [])
    {schema : Members} (hat : schemaAt? (specMembers info required) q = some schema) {v : Value}
    (hsaid : lastSaid (placedFields info.fields) q = some (inferType v)) :
    (Node.ofSchema (.obj schema)).hints.types = declaredTags (inferType v) := by
  have htypes : TypesSaid (placedFields info.fields) (specMembers info required) :=
    (typesSaid_specProperties hfields).congr (by simp [propertySchemas_specMembers])
  have htype := htypes q hq schema hat
  rw [hsaid, Option.getD_some] at htype
  rw [Node.hints_ofSchema]
  exact typeTags_of_inferType htype

theorem primaryType_eq_object_iff {fields : List (String × FieldHints)} {q : List String}
    {h : Hints} (htyped : ∀ v, TypedLast fields q v → h.types = declaredTags (inferType v))
    (huntyped : (∀ v, ¬ TypedLast fields q v) → h.types = ["object"]) :
    h.primaryType = "object" ↔ ∀ v, TypedLast fields q v → v.kind = .obj := by
  constructor
  · intro hobject v hv
    exact (primaryType_inferType_iff (htyped v hv)).mp hobject
  · intro hobjects
    by_cases hexists : ∃ v, TypedLast fields q v
    · obtain ⟨v, hv⟩ := hexists
      exact (primaryType_inferType_iff (htyped v hv)).mpr (hobjects v hv)
    · rw [Hints.primaryType, huntyped (not_exists.mp hexists)]
      rfl

/-- **The nodes on the way to a field are objects, and have the type tag of one unless a field with
a value that is no object stands there and is listed after all fields below it.** -/
theorem types_of_generated (type : String) {info : TypeInfo}
    (hfields : (Members.names info.fields).Nodup)
    (hrequired : ∀ v ∈ info.userRequired, v.string?.isSome = true) :
    ∃ document root, generate type info = .ok document ∧ build document = .ok root
      ∧ ∀ f ∈ info.fields, ∀ names, Addresses f.1 names → ∀ q, q <+: names → q ≠ names →
        ∃ n, root.navigate? ("spec" :: q) = some n ∧ n.isObject = true
          ∧ (∀ v, TypedLast info.fields q v → n.hints.types = declaredTags (inferType v))
          ∧ ((∀ v, ¬ TypedLast info.fields q v) → n.hints.types = ["object"])
          ∧ (n.hints.primaryType = "object" ↔ ∀ v, TypedLast info.fields q v → v.kind = .obj) := by
  obtain ⟨required, hnames⟩ := exists_specRequired [] hrequired
  have hlaid : LaidOut (placedFields info.fields) (specMembers info required) :=
    (laidOut_specProperties hfields).congr (by simp [propertySchemas_specMembers])
  have hnavigate := navigate?_generated type info required
  refine ⟨_, _, generate_eq type hnames,
    build_schemaDocument _ _ _ (hasReadableRequired_specMembers info required), ?_⟩
  intro f hf names haddress q hleads hne
  by_cases hq : q = []
  · -- The section itself; no field has its path.
    subst hq
    have hnone : ∀ v, ¬ TypedLast info.fields [] v := by
      rintro v ⟨_, _, _, -, hnil, -⟩
      exact hnil.ne_nil rfl
    have huntyped :
        (Node.ofSchema (.obj (specMembers info required))).hints.types = ["object"] := by
      rw [Node.hints_ofSchema]
      rfl
    refine ⟨_, hnavigate [], ?_, fun v hv => absurd hv (hnone v), fun _ => huntyped,
      primaryType_eq_object_iff (fun v hv => absurd hv (hnone v)) fun _ => huntyped⟩
    rw [Node.isObject_ofSchema]
    simp [describesObject, specMembers, Members.find?_cons]
  · have hplaced : (names, f.2) ∈ placedFields info.fields :=
      mem_placedFields.mpr ⟨f, hf, haddress, rfl⟩
    obtain ⟨schema, hat, hobject⟩ := hlaid.isObject hplaced hq hleads hne
    have htyped := fun v (hv : TypedLast info.fields q v) =>
      types_ofSchema hfields hq hat hv.lastSaid
    have huntyped : (∀ v, ¬ TypedLast info.fields q v) →
        (Node.ofSchema (.obj schema)).hints.types = ["object"] := by
      intro hnone
      have hsaid := (exists_typedLast_or hfields hf haddress hleads hne).resolve_left
        (not_exists.mpr hnone)
      -- The type of an object is the one that is inferred for an object.
      exact types_ofSchema hfields hq hat (v := .obj []) hsaid
    exact ⟨_, by rw [hnavigate, hat]; rfl, hobject, htyped, huntyped,
      primaryType_eq_object_iff htyped huntyped⟩

/-- A field with an integer and a field below it, in the one order or the other. -/
def TypeInfo.overlapping (childFirst : Bool) : TypeInfo where
  displayName := "Pool"
  fields :=
    if childFirst then [("spec.port.name", {}), ("spec.port", { default := some (.int 5) })]
    else [("spec.port", { default := some (.int 5) }), ("spec.port.name", {})]

theorem addresses_port : Addresses "spec.port" ["port"] :=
  ⟨by decide, by decide, by decide⟩

theorem addresses_portName : Addresses "spec.port.name" ["port", "name"] :=
  ⟨by decide, by decide, by decide⟩

/-- The node of `port` has the tag of an integer where its field comes last, and else that of an
object. -/
theorem types_of_generated_overlapping :
    (∃ document root n, generate "pool" (.overlapping true) = .ok document
        ∧ build document = .ok root ∧ root.navigate? ["spec", "port"] = some n
        ∧ n.isObject = true ∧ n.hints.types = ["integer"])
      ∧ ∃ document root n, generate "pool" (.overlapping false) = .ok document
        ∧ build document = .ok root ∧ root.navigate? ["spec", "port"] = some n
        ∧ n.isObject = true ∧ n.hints.types = ["object"] := by
  have hfields : ∀ b, (Members.names (TypeInfo.overlapping b).fields).Nodup := by decide
  have hrequired : ∀ b, ∀ v ∈ (TypeInfo.overlapping b).userRequired, v.string?.isSome = true := by
    intro b v hv
    cases hv
  constructor
  · obtain ⟨document, root, hgenerate, hbuild, hnodes⟩ :=
      types_of_generated "pool" (hfields true) (hrequired true)
    obtain ⟨n, hn, hobject, htyped, -, -⟩ :=
      hnodes _ List.mem_cons_self _ addresses_portName ["port"] (by decide) (by decide)
    refine ⟨document, root, n, hgenerate, hbuild, hn, hobject, htyped (.int 5) ?_⟩
    exact ⟨[("spec.port.name", {})], _, [], rfl, addresses_port, rfl, fun g hg => by cases hg⟩
  · obtain ⟨document, root, hgenerate, hbuild, hnodes⟩ :=
      types_of_generated "pool" (hfields false) (hrequired false)
    obtain ⟨n, hn, hobject, -, huntyped, -⟩ :=
      hnodes ("spec.port.name", {}) (by simp [TypeInfo.overlapping]) _ addresses_portName
        ["port"] (by decide) (by decide)
    refine ⟨document, root, n, hgenerate, hbuild, hn, hobject, huntyped ?_⟩
    rintro v ⟨before, g, after, hsplit, haddress, hvalue, hafter⟩
    rcases before with _ | ⟨x, _ | ⟨y, before⟩⟩
    · obtain ⟨rfl, rfl⟩ := List.cons.inj hsplit
      exact hafter _ List.mem_cons_self _ addresses_portName (by decide)
    · obtain ⟨-, hsplit⟩ := List.cons.inj hsplit
      obtain ⟨rfl, -⟩ := List.cons.inj hsplit
      cases hvalue
    · simp [TypeInfo.overlapping] at hsplit

/-- **The tag of a node on the way to a field is not always that of an object.** -/
theorem not_forall_primaryType_eq_object :
    ¬ ∀ (type : String) (info : TypeInfo), (Members.names info.fields).Nodup →
      (∀ v ∈ info.userRequired, v.string?.isSome = true) →
      ∀ document root, generate type info = .ok document → build document = .ok root →
      ∀ f ∈ info.fields, ∀ names, Addresses f.1 names → ∀ q, q <+: names → q ≠ names →
        ∃ n, root.navigate? ("spec" :: q) = some n ∧ n.hints.primaryType = "object" := by
  intro hall
  have hnavigate := navigate?_generated "pool" (.overlapping true) [] ["port"]
  obtain ⟨n, hn, hobject⟩ := hall "pool" (.overlapping true) (by decide) (fun v hv => by cases hv)
    _ _ (generate_eq "pool" rfl) (build_schemaDocument _ _ _ (hasReadableRequired_specMembers _ _))
    _ List.mem_cons_self _ addresses_portName ["port"] (by decide) (by decide)
  rw [hnavigate] at hn
  obtain ⟨schema, hat, rfl⟩ := Option.map_eq_some_iff.mp hn
  have htags : (schemaAt? (specMembers (.overlapping true) []) ["port"]).map
      (fun schema => (Hints.ofSchema schema).primaryType) = some "integer" := by decide
  rw [hat, Option.map_some, ← Node.hints_ofSchema, hobject] at htags
  exact absurd htags (by decide)

end SchemaAssist.Resource
