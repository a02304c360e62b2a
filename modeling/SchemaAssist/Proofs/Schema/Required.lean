/-
# Which documents have a tree

A tree is built from every object, however malformed its keywords are, with one exception: the
required names of an object are walked over, and a value that counts as true but cannot be walked
over makes the whole document unusable.  It does so only where the builder looks: in the schemas of
objects that are reached from the root through properties and elements (`Visits`).

* `hasReadableRequired_iff`: the test for such a value finds it in every visited object, and looks
  nowhere else;
* `build_error_iff`: so these are, beside the documents that are no objects, the only ones that no
  tree is built from.
-/
import SchemaAssist.Proofs.Schema.Keywords

namespace SchemaAssist.Schema

open SchemaAssist.Json

/-! ## 1. The subschemas that are visited -/

/-- The builder comes from a schema to a subschema: through the properties of objects and through
the elements of arrays. -/
inductive Visits : Value → Value → Prop where
  | self (v : Value) : Visits v v
  | property {schema properties : Members} {name : String} {inner sub : Value} :
      DescribesObject schema → Members.find? "properties" schema = some (.obj properties) →
      (name, inner) ∈ properties → Visits inner sub → Visits (.obj schema) sub
  | items {schema : Members} {inner sub : Value} : DescribesArray schema →
      SharesItems schema inner → Visits inner sub → Visits (.obj schema) sub

/-- Only objects have subschemas. -/
theorem Visits.eq_self {v sub : Value} (h : Visits v sub) (hv : v.kind ≠ .obj) : sub = v := by
  cases h with
  | self => rfl
  | property | items => exact absurd rfl hv

/-- The required names of a schema that describes an object cannot be read. -/
structure Unreadable (schema : Members) : Prop where
  object : DescribesObject schema
  /-- The keyword counts as true and cannot be walked over. -/
  required : ∃ v, Members.find? "required" schema = some v ∧ IsTrueOrNonzero v

/-! ## 2. The test for required names -/

theorem haveReadableRequired_iff (properties : Members) :
    haveReadableRequired properties = true
      ↔ ∀ m ∈ properties, hasReadableRequired m.2 = true := by
  induction properties with
  | nil => simp [haveReadableRequired]
  | cons m rest ih =>
    obtain ⟨name, v⟩ := m
    rw [haveReadableRequired, Bool.and_eq_true, ih]
    simp

/-- Nothing is asked of a schema that is no object. -/
theorem hasReadableRequired_of_kind_ne {v : Value} (h : v.kind ≠ .obj) :
    hasReadableRequired v = true := by
  cases v with
  | obj => exact absurd rfl h
  | null | bool | int | double | str | arr => rw [hasReadableRequired.eq_2]; simp

/-- What the test asks of one schema. -/
theorem hasReadableRequired_obj_iff (schema : Members) : hasReadableRequired (.obj schema) = true ↔
    ¬ Unreadable schema
      ∧ (DescribesObject schema → ∀ m ∈ propertySchemas schema, hasReadableRequired m.2 = true)
      ∧ (DescribesArray schema → ∀ v, SharesItems schema v → hasReadableRequired v = true) := by
  rw [hasReadableRequired]
  by_cases hobject : DescribesObject schema
  · have harray : ¬ DescribesArray schema := fun h => h.1 hobject
    have hunreadable : ¬ Unreadable schema ↔ (requiredNames? schema).isSome = true := by
      rw [requiredNames?_isSome_iff]
      constructor
      · intro h v hv htrue
        exact h ⟨hobject, v, hv, htrue⟩
      · rintro h ⟨-, v, hv, htrue⟩
        exact h v hv htrue
    rw [if_pos (describesObject_iff.mpr hobject), Bool.and_eq_true, haveReadableRequired_iff,
      hunreadable]
    simp [hobject, harray, and_comm]
  · have hunreadable : ¬ Unreadable schema := fun h => hobject h.object
    rw [if_neg fun h => hobject (describesObject_iff.mp h)]
    by_cases harray : DescribesArray schema
    · rw [if_pos ((describesArray_iff hobject).mpr harray)]
      split
      · rename_i items hitems
        have hshares : ∀ v, SharesItems schema v ↔ v = items := by
          intro v
          rw [← itemSchema?_eq_some_iff, hitems]
          simp [eq_comm]
        simp [hobject, hunreadable, harray, hshares]
      · rename_i hitems
        have hshares : ∀ v, ¬ SharesItems schema v := by
          intro v
          rw [← itemSchema?_eq_some_iff, hitems]
          simp
        simp [hobject, hunreadable, hshares]
    · rw [if_neg fun h => harray ((describesArray_iff hobject).mp h)]
      simp [hobject, hunreadable, harray]

/-- A schema of an object is readable if its own names and its properties are. -/
theorem hasReadableRequired_of_properties {schema : Members} (hitems : itemSchema? schema = none)
    (hrequired : (requiredNames? schema).isSome = true)
    (h : ∀ m ∈ propertySchemas schema, hasReadableRequired m.2 = true) :
    hasReadableRequired (.obj schema) = true := by
  refine (hasReadableRequired_obj_iff schema).mpr ⟨?_, fun _ => h, ?_⟩
  · rintro ⟨-, v, hv, htrue⟩
    exact requiredNames?_isSome_iff.mp hrequired v hv htrue
  · intro _ v hv
    rw [← itemSchema?_eq_some_iff, hitems] at hv
    cases hv

/-- **The test finds the required names that cannot be read in every object that is visited.** -/
theorem hasReadableRequired_iff (document : Value) : hasReadableRequired document = true ↔
    ∀ schema, Visits document (.obj schema) → ¬ Unreadable schema := by
  constructor
  · intro h schema hvisits
    generalize hsub : Value.obj schema = sub at hvisits
    induction hvisits with
    | self =>
      subst hsub
      exact ((hasReadableRequired_obj_iff schema).mp h).1
    | property hobject hfind hmem _ ih =>
      have hproperties := ((hasReadableRequired_obj_iff _).mp h).2.1 hobject
      exact ih (hproperties _ (mem_propertySchemas_iff.mpr ⟨_, hfind, hmem⟩)) hsub
    | items harray hitems _ ih =>
      have hshared := ((hasReadableRequired_obj_iff _).mp h).2.2 harray
      exact ih (hshared _ hitems) hsub
  · induction document using schemaInduction with
    | other v hv => exact fun _ => hasReadableRequired_of_kind_ne hv
    | obj schema hproperties hitems =>
      intro h
      rw [hasReadableRequired_obj_iff]
      refine ⟨h schema (.self _), ?_, ?_⟩
      · intro hobject m hm
        refine hproperties m hm ?_
        intro inner hinner
        obtain ⟨properties, hfind, hmem⟩ := mem_propertySchemas_iff.mp hm
        exact h inner (.property hobject hfind hmem hinner)
      · intro harray v hv
        refine hitems v (itemSchema?_eq_some_iff.mpr hv) ?_
        intro inner hinner
        exact h inner (.items harray hv hinner)

/-! ## 3. Building -/

theorem build_eq_ok_iff {document : Value} {root : Node} : build document = .ok root ↔
    document.kind = .obj ∧ hasReadableRequired document = true ∧ Node.ofSchema document = root := by
  unfold build
  cases document with
  | obj schema =>
    by_cases h : hasReadableRequired (.obj schema) = true
    · simp [h, Value.kind]
    · simp [h]
  | null | bool | int | double | str | arr => simp [Value.kind]

theorem build_eq_error_iff {document : Value} {e : BuildError} : build document = .error e ↔
    e = .notObject document.kind ∧ document.kind ≠ .obj
      ∨ e = .unreadableRequired ∧ document.kind = .obj ∧ hasReadableRequired document = false := by
  unfold build
  cases document with
  | obj schema =>
    by_cases h : hasReadableRequired (.obj schema) = true
    · simp [h, Value.kind]
    · simpa [h, Value.kind] using eq_comm
  | null | bool | int | double | str | arr => simpa [Value.kind] using eq_comm

/-- What is visited besides the document lies in an object. -/
theorem kind_of_visits {document : Value} {schema : Members}
    (h : Visits document (.obj schema)) : document.kind = .obj := by
  by_cases hkind : document.kind = .obj
  · exact hkind
  · rw [← h.eq_self hkind]
    rfl

/-- **A tree is built from every document but those that are no objects and those in which a visited
object requires `true` or a number other than zero.**  All other keywords may hold anything. -/
theorem build_error_iff (document : Value) :
    (∀ e, build document = .error e ↔
        e = .notObject document.kind ∧ document.kind ≠ .obj
          ∨ e = .unreadableRequired
              ∧ ∃ schema, Visits document (.obj schema) ∧ Unreadable schema)
      ∧ ((∃ root, build document = .ok root) ↔
        document.kind = .obj ∧ ∀ schema, Visits document (.obj schema) → ¬ Unreadable schema) := by
  constructor
  · intro e
    have hfails : hasReadableRequired document = false
        ↔ ∃ schema, Visits document (.obj schema) ∧ Unreadable schema := by
      rw [← Bool.not_eq_true, hasReadableRequired_iff]
      simp
    rw [build_eq_error_iff, hfails]
    constructor
    · rintro (h | ⟨he, -, h⟩)
      · exact .inl h
      · exact .inr ⟨he, h⟩
    · rintro (h | ⟨he, schema, hvisits, hschema⟩)
      · exact .inl h
      · exact .inr ⟨he, kind_of_visits hvisits, schema, hvisits, hschema⟩
  · simp only [build_eq_ok_iff, hasReadableRequired_iff]
    constructor
    · rintro ⟨root, hkind, h, -⟩
      exact ⟨hkind, h⟩
    · rintro ⟨hkind, h⟩
      exact ⟨_, hkind, h, rfl⟩

/-- An array whose elements have a property that requires a number. -/
def nestedRequired : Members :=
  [("items", .arr [.obj [("properties", .obj [("a",
    .obj [("type", .str "object"), ("required", .int 1)])])]])]

theorem build_error_iff_nestedRequired :
    (∃ schema, Visits (.obj nestedRequired) (.obj schema) ∧ Unreadable schema)
      ∧ build (.obj nestedRequired) = .error .unreadableRequired := by
  have hobject : ¬ DescribesObject nestedRequired :=
    fun h => absurd (describesObject_iff.mpr h) (by decide)
  have harray : DescribesArray nestedRequired := (describesArray_iff hobject).mp rfl
  have hvisits : Visits (.obj nestedRequired)
      (.obj [("type", .str "object"), ("required", .int 1)]) := by
    refine .items harray (.first rfl (by decide)) ?_
    exact .property (.inl rfl) rfl List.mem_cons_self (.self _)
  have hunreadable : Unreadable [("type", .str "object"), ("required", .int 1)] :=
    ⟨describesObject_iff.mp rfl, .int 1, rfl, .int (by decide)⟩
  refine ⟨⟨_, hvisits, hunreadable⟩, ?_⟩
  exact ((build_error_iff (.obj nestedRequired)).1 _).mpr (.inr ⟨rfl, _, hvisits, hunreadable⟩)

end SchemaAssist.Schema
