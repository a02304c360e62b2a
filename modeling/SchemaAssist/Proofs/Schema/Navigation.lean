/-
# Navigation in a tree is a walk in the document

A path is walked in the tree of a schema document and, keyword by keyword, in the document itself
(`SubschemaAt`): from an object to what it declares for a property, from an array to what it
declares for its elements, and no further.  Both walks fail on the same paths, and where they do not
fail the tree has the node that is built from the subschema that the document has
(`navigate?_build`).
-/
import SchemaAssist.Proofs.Schema.Required
import SchemaAssist.Proofs.Schema.Walk

namespace SchemaAssist.Schema

open SchemaAssist.Json

/-! ## 1. The walk in the document -/

/-- One step of a path: to the property of that name in an object, to the elements of an array
whatever the segment says. -/
inductive SubschemaStep : Value → String → Value → Prop where
  | property {schema properties : Members} {name : String} {inner : Value} :
      DescribesObject schema → Members.find? "properties" schema = some (.obj properties) →
      Members.find? name properties = some inner → SubschemaStep (.obj schema) name inner
  | element {schema : Members} {segment : String} {inner : Value} :
      DescribesArray schema → SharesItems schema inner → SubschemaStep (.obj schema) segment inner

/-- A path leads from a schema to a subschema. -/
inductive SubschemaAt : Value → List String → Value → Prop where
  | here (v : Value) : SubschemaAt v [] v
  | step {v inner sub : Value} {segment : String} {path : List String} :
      SubschemaStep v segment inner → SubschemaAt inner path sub →
      SubschemaAt v (segment :: path) sub

theorem subschema?_eq_some_iff {v inner : Value} {segment : String} :
    subschema? v segment = some inner ↔ SubschemaStep v segment inner := by
  constructor
  · intro h
    cases v with
    | obj schema =>
      rw [subschema?] at h
      split at h
      · rename_i hobject
        obtain ⟨properties, hfind, hinner⟩ := find?_propertySchemas_eq_some_iff.mp h
        exact .property (describesObject_iff.mp hobject) hfind hinner
      · rename_i hobject
        rw [describesObject_iff] at hobject
        split at h
        · rename_i harray
          exact .element ((describesArray_iff hobject).mp harray) (itemSchema?_eq_some_iff.mp h)
        · cases h
    | null | bool | int | double | str | arr => cases h
  · intro h
    cases h with
    | property hobject hfind hinner =>
      rw [subschema?, if_pos (describesObject_iff.mpr hobject)]
      exact find?_propertySchemas_eq_some_iff.mpr ⟨_, hfind, hinner⟩
    | element harray hitems =>
      rw [subschema?, if_neg fun h => harray.1 (describesObject_iff.mp h),
        if_pos ((describesArray_iff harray.1).mpr harray)]
      exact itemSchema?_eq_some_iff.mpr hitems

theorem subschemaAt?_eq_some_iff {v sub : Value} {path : List String} :
    subschemaAt? v path = some sub ↔ SubschemaAt v path sub := by
  induction path generalizing v with
  | nil =>
    constructor
    · rintro ⟨⟩
      exact .here _
    · rintro ⟨⟩
      rfl
  | cons segment path ih =>
    rw [subschemaAt?, Option.bind_eq_some_iff]
    constructor
    · rintro ⟨inner, hstep, hpath⟩
      exact .step (subschema?_eq_some_iff.mp hstep) (ih.mp hpath)
    · intro h
      cases h with
      | step hstep hpath => exact ⟨_, subschema?_eq_some_iff.mpr hstep, ih.mpr hpath⟩

/-! ## 2. What the walk leads to is visited -/

theorem Visits.trans {v w x : Value} (h : Visits v w) (h' : Visits w x) : Visits v x := by
  induction h with
  | self => exact h'
  | property hobject hfind hmem _ ih => exact .property hobject hfind hmem (ih h')
  | items harray hitems _ ih => exact .items harray hitems (ih h')

theorem SubschemaAt.visits {v sub : Value} {path : List String} (h : SubschemaAt v path sub) :
    Visits v sub := by
  induction h with
  | here v => exact .self v
  | step hstep _ ih =>
    cases hstep with
    | property hobject hfind hinner =>
      exact .property hobject hfind (Members.mem_of_find? hinner) ih
    | element harray hitems => exact .items harray hitems ih

/-! ## 3. The walk in the tree -/

/-- The node that is built from a subschema: one that is no object gives a scalar without types. -/
def buildSubschema (v : Value) : Except BuildError Node :=
  match v with
  | .obj _ => build v
  | _ => .ok (.scalar Hints.untyped)

/-- A subschema that can be read is built into its tree. -/
theorem buildSubschema_eq {v : Value} (h : hasReadableRequired v = true) :
    buildSubschema v = .ok (Node.ofSchema v) := by
  cases v with
  | obj schema => exact build_eq_ok_iff.mpr ⟨rfl, h, rfl⟩
  | null | bool | int | double | str | arr => rw [Node.ofSchema.eq_2]; rfl; simp

/-- **Navigation fails where the walk in the document fails, and otherwise finds the node that is
built from the subschema there.** -/
theorem navigate?_build {document : Value} {root : Node} (h : build document = .ok root)
    (path : List String) :
    (root.navigate? path = none ↔ ∀ sub, ¬ SubschemaAt document path sub)
      ∧ ∀ sub, SubschemaAt document path sub →
          ∃ node, buildSubschema sub = .ok node ∧ root.navigate? path = some node := by
  obtain ⟨-, hread, rfl⟩ := build_eq_ok_iff.mp h
  rw [Node.navigate?_ofSchema]
  constructor
  · simp [Option.eq_none_iff_forall_ne_some, subschemaAt?_eq_some_iff]
  · intro sub hsub
    have hsubread : hasReadableRequired sub = true := by
      rw [hasReadableRequired_iff] at hread ⊢
      intro schema hvisits
      exact hread schema (hsub.visits.trans hvisits)
    refine ⟨Node.ofSchema sub, buildSubschema_eq hsubread, ?_⟩
    rw [subschemaAt?_eq_some_iff.mpr hsub, Option.map_some]

/-- An array by the first name in its list of types; the schema of its elements is the first of a
list, and one of their properties has the schema `true`. -/
def listedArray : Members :=
  [("type", .arr [.int 1, .str "array"]),
    ("items", .arr [.obj [("properties", .obj [("a", .bool true)])], .null])]

theorem build_listedArray : build (.obj listedArray) = .ok (Node.ofSchema (.obj listedArray)) := by
  have hproperty := hasReadableRequired_of_kind_ne (v := .bool true) (by decide)
  have hitems : hasReadableRequired (.obj [("properties", .obj [("a", .bool true)])]) = true :=
    hasReadableRequired_of_properties rfl rfl (List.forall_mem_singleton.mpr hproperty)
  have hobject : ¬ Unreadable listedArray := by
    rintro ⟨-, v, hv, -⟩
    cases hv
  refine build_eq_ok_iff.mpr ⟨rfl, ?_, rfl⟩
  refine (hasReadableRequired_obj_iff _).mpr ⟨hobject, fun _ => List.forall_mem_nil _, ?_⟩
  intro _ v hv
  rw [← itemSchema?_eq_some_iff] at hv
  cases hv
  exact hitems

/-- Any segment leads to the elements, and the schema `true` is a scalar without types. -/
theorem navigate?_build_listedArray : ∃ root, build (.obj listedArray) = .ok root
    ∧ root.navigate? ["7", "a"] = some (.scalar Hints.untyped)
    ∧ root.navigate? ["7", "b"] = none := by
  refine ⟨_, build_listedArray, ?_, ?_⟩
  · have hsub : SubschemaAt (.obj listedArray) ["7", "a"] (.bool true) :=
      subschemaAt?_eq_some_iff.mp rfl
    obtain ⟨node, hnode, hnavigate⟩ := (navigate?_build build_listedArray _).2 _ hsub
    cases hnode
    exact hnavigate
  · refine (navigate?_build build_listedArray _).1.mpr ?_
    intro sub hsub
    rw [← subschemaAt?_eq_some_iff] at hsub
    cases hsub

end SchemaAssist.Schema
