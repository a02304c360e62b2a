/-
# What the keywords of a schema say

A tree is built by functions that look at the keywords one after the other.  This file states the
rules that they follow: which type is the primary one (`HasPrimaryType`), when a schema describes an
object (`DescribesObject`) or an array (`DescribesArray`), which schema the elements of an array
share (`SharesItems`), and which values of `required` cannot be walked over (`IsTrueOrNonzero`).

Each function follows its rule (`head?_typeTags_eq_some_iff`, `describesObject_iff`,
`itemSchema?_eq_some_iff`, `requiredNames?_isSome_iff`).  `schemaInduction` is the induction that a
tree is built by.
-/
import SchemaAssist.Schema.Build

namespace SchemaAssist.Schema

open SchemaAssist.Json

variable {schema : Members}

/-! ## 1. The primary type -/

/-- The schema declares a type: its only one, or the first of a list of types, entries of the list
that are no strings left out. -/
inductive DeclaresType (schema : Members) : String → Prop where
  | single {tag : String} : Members.find? "type" schema = some (.str tag) → DeclaresType schema tag
  | listed {tag : String} {tags : List Value} : Members.find? "type" schema = some (.arr tags) →
      tags.findSome? Value.string? = some tag → DeclaresType schema tag

/-- The primary type of a schema: the declared one, or the one that the keywords show. -/
inductive HasPrimaryType (schema : Members) : String → Prop where
  | declared {tag : String} : DeclaresType schema tag → HasPrimaryType schema tag
  | object : (∀ tag, ¬ DeclaresType schema tag) → (Members.find? "properties" schema).isSome →
      HasPrimaryType schema "object"
  | array : (∀ tag, ¬ DeclaresType schema tag) → Members.find? "properties" schema = none →
      (Members.find? "items" schema).isSome → HasPrimaryType schema "array"
  | string : (∀ tag, ¬ DeclaresType schema tag) → Members.find? "properties" schema = none →
      Members.find? "items" schema = none → HasPrimaryType schema "string"

theorem declaresType_iff (tag : String) : DeclaresType schema tag ↔
    Members.find? "type" schema = some (.str tag)
      ∨ ∃ tags, Members.find? "type" schema = some (.arr tags)
        ∧ tags.findSome? Value.string? = some tag := by
  constructor
  · intro h
    cases h with
    | single h => exact .inl h
    | listed h htag => exact .inr ⟨_, h, htag⟩
  · rintro (h | ⟨tags, h, htag⟩)
    · exact .single h
    · exact .listed h htag

/-- Where no type is declared, the keywords show it. -/
theorem hasPrimaryType_of_not_declared (h : ∀ tag, ¬ DeclaresType schema tag) (tag : String) :
    HasPrimaryType schema tag ↔ (inferredTypes schema).head? = some tag := by
  unfold inferredTypes
  constructor
  · intro htag
    cases htag with
    | declared hdeclared => exact absurd hdeclared (h tag)
    | object _ hproperties => simp [hproperties]
    | array _ hproperties hitems => simp [hproperties, hitems]
    | string _ hproperties hitems => simp [hproperties, hitems]
  · intro htag
    split at htag
    · rename_i hproperties
      cases htag
      exact .object h hproperties
    · rename_i hproperties
      rw [Option.not_isSome_iff_eq_none] at hproperties
      split at htag
      · rename_i hitems
        cases htag
        exact .array h hproperties hitems
      · rename_i hitems
        rw [Option.not_isSome_iff_eq_none] at hitems
        cases htag
        exact .string h hproperties hitems

/-- A declared type is the primary one. -/
theorem hasPrimaryType_of_declares {tag : String} (h : ∃ tag, DeclaresType schema tag) :
    HasPrimaryType schema tag ↔ DeclaresType schema tag := by
  obtain ⟨other, hother⟩ := h
  constructor
  · intro htag
    cases htag with
    | declared hdeclared => exact hdeclared
    | object hnone => exact absurd hother (hnone other)
    | array hnone => exact absurd hother (hnone other)
    | string hnone => exact absurd hother (hnone other)
  · exact .declared

/-- **The first of the type tags is the primary type.** -/
theorem head?_typeTags_eq_some_iff (tag : String) :
    (typeTags schema).head? = some tag ↔ HasPrimaryType schema tag := by
  unfold typeTags
  split
  · rename_i declared hfind
    have hdeclares : ∀ other, DeclaresType schema other ↔ other = declared := by
      intro other
      simp [declaresType_iff, hfind, eq_comm]
    rw [hasPrimaryType_of_declares ⟨declared, (hdeclares declared).mpr rfl⟩, hdeclares]
    simp [eq_comm]
  · rename_i tags hfind
    have hdeclares : ∀ other, DeclaresType schema other
        ↔ (tags.filterMap Value.string?).head? = some other := by
      intro other
      simp [declaresType_iff, hfind, List.head?_filterMap]
    cases htags : tags.filterMap Value.string? with
    | nil =>
      have hnone : ∀ other, ¬ DeclaresType schema other := by
        intro other hother
        rw [hdeclares, htags] at hother
        cases hother
      simpa using (hasPrimaryType_of_not_declared hnone tag).symm
    | cons first rest =>
      have hfirst : DeclaresType schema first := by rw [hdeclares, htags]; rfl
      rw [hasPrimaryType_of_declares ⟨first, hfirst⟩, hdeclares, htags]
      simp
  · rename_i hstr harr
    have hnone : ∀ other, ¬ DeclaresType schema other := by
      intro other hother
      cases hother with
      | single h => exact hstr _ h
      | listed h => exact harr _ h
    exact (hasPrimaryType_of_not_declared hnone tag).symm

/-! ## 2. Objects and arrays -/

/-- The schema describes an object: it has properties, or its primary type says so. -/
def DescribesObject (schema : Members) : Prop :=
  (Members.find? "properties" schema).isSome ∨ HasPrimaryType schema "object"

/-- The schema describes an array: its primary type says so, and it has no properties. -/
def DescribesArray (schema : Members) : Prop :=
  ¬ DescribesObject schema ∧ HasPrimaryType schema "array"

theorem describesObject_iff : describesObject schema = true ↔ DescribesObject schema := by
  simp [describesObject, DescribesObject, head?_typeTags_eq_some_iff]

theorem describesArray_iff (h : ¬ DescribesObject schema) :
    describesArray schema = true ↔ DescribesArray schema := by
  simp [describesArray, DescribesArray, head?_typeTags_eq_some_iff, h]

/-- The properties are declared by an object, each with its schema. -/
theorem mem_propertySchemas_iff {m : String × Value} : m ∈ propertySchemas schema ↔
    ∃ properties, Members.find? "properties" schema = some (.obj properties) ∧ m ∈ properties := by
  unfold propertySchemas
  split
  · rename_i properties h
    simp [h]
  · rename_i h
    simpa using fun properties hfind _ => h properties hfind

/-- A property is found where the properties are declared by an object that has it. -/
theorem find?_propertySchemas_eq_some_iff {name : String} {v : Value} :
    Members.find? name (propertySchemas schema) = some v ↔
      ∃ properties, Members.find? "properties" schema = some (.obj properties)
        ∧ Members.find? name properties = some v := by
  unfold propertySchemas
  split
  · rename_i properties h
    simp [h]
  · rename_i h
    simpa using fun properties hfind _ => h properties hfind

/-- The schema of the elements: the declared one, or the first of a list of them; `null` is none. -/
inductive SharesItems (schema : Members) : Value → Prop where
  | single {v : Value} : Members.find? "items" schema = some v → v.kind ≠ .null → v.kind ≠ .arr →
      SharesItems schema v
  | first {v : Value} {rest : List Value} : Members.find? "items" schema = some (.arr (v :: rest)) →
      v.kind ≠ .null → SharesItems schema v

theorem itemSchema?_eq_some_iff {v : Value} :
    itemSchema? schema = some v ↔ SharesItems schema v := by
  constructor
  · intro h
    unfold itemSchema? at h
    split at h
    · cases h
    · cases h
    · cases h
    · rename_i hnull hfind
      cases h
      exact .first hfind (by cases v <;> simp_all [Value.kind])
    · rename_i hnull hnil _ hcons hfind
      cases h
      refine .single hfind (by cases v <;> simp_all [Value.kind]) ?_
      -- A list is either empty or has a first schema, and both are other cases.
      cases v with
      | arr items => cases items <;> simp_all
      | null | bool | int | double | str | obj => simp [Value.kind]
    · cases h
  · intro h
    cases h with
    | single hfind hnull harr =>
      cases v <;> simp_all [itemSchema?, Value.kind]
    | first hfind hnull =>
      cases v <;> simp_all [itemSchema?, Value.kind]

/-! ## 3. Required names -/

/-- The values that count as true and cannot be walked over: `true` and the numbers other than
zero. -/
inductive IsTrueOrNonzero : Value → Prop where
  | true : IsTrueOrNonzero (.bool true)
  | int {n : Int} : n ≠ 0 → IsTrueOrNonzero (.int n)
  | double {d : Double} : d.isZero = false → IsTrueOrNonzero (.double d)

theorem optionalElements?_isSome_iff (v : Value) :
    v.optionalElements?.isSome = true ↔ ¬ IsTrueOrNonzero v := by
  constructor
  · rintro h (_ | hn | hd)
    · cases h
    · simp [Value.optionalElements?, Value.isTruthy, Value.elements?, hn] at h
    · simp [Value.optionalElements?, Value.isTruthy, Value.elements?, hd] at h
  · intro h
    cases v with
    | null => rfl
    | bool b =>
      cases b with
      | false => rfl
      | true => exact absurd .true h
    | int n =>
      by_cases hn : n = 0
      · rw [hn]
        rfl
      · exact absurd (.int hn) h
    | double d =>
      cases hd : d.isZero with
      | true => simp [Value.optionalElements?, Value.isTruthy, hd]
      | false => exact absurd (.double hd) h
    | str | arr | obj =>
      rw [Value.optionalElements?]
      split <;> rfl

/-- **The required names can be read unless the keyword is `true` or a number other than zero.** -/
theorem requiredNames?_isSome_iff : (requiredNames? schema).isSome = true ↔
    ∀ v, Members.find? "required" schema = some v → ¬ IsTrueOrNonzero v := by
  unfold requiredNames?
  split
  · rename_i h
    simp [h]
  · rename_i v h
    simp [h, optionalElements?_isSome_iff]

/-! ## 4. Induction -/

/-- Induction over a schema, through the schemas of its properties and of its elements. -/
theorem schemaInduction {motive : Value → Prop} (other : ∀ v, v.kind ≠ .obj → motive v)
    (obj : ∀ schema : Members, (∀ m ∈ propertySchemas schema, motive m.2) →
      (∀ v, itemSchema? schema = some v → motive v) → motive (.obj schema)) : ∀ v, motive v
  | .obj schema => obj schema (fun m _ => schemaInduction other obj m.2)
      (fun v _ => schemaInduction other obj v)
  | .null | .bool _ | .int _ | .double _ | .str _ | .arr _ => other _ (by simp [Value.kind])
termination_by v => sizeOf v
decreasing_by
  · have hproperties := sizeOf_propertySchemas_lt schema
    have hm := List.sizeOf_lt_of_mem ‹m ∈ propertySchemas schema›
    obtain ⟨name, v⟩ := m
    simp only [Prod.mk.sizeOf_spec] at hm ⊢
    omega
  · exact sizeOf_itemSchema_lt ‹_›

end SchemaAssist.Schema
