/-
# Walking a schema document

The tree of a schema document is walked as the document itself is: from an object to the schema of
a property, from an array to the schema of its elements.  `subschemaAt?` is that walk in the
document.

* `hints_ofSchema`, `isObject_ofSchema`: what a node says of itself is what its schema says;
* `child?_ofSchema`: a step in the tree is a step in the document;
* `navigate?_ofSchema`: so the node at the end of a path is the tree of the subschema there.

A path leads to nodes of the tree only (`within_of_navigate?`), and the properties that a template
shows are children of its node (`exists_child_of_mem_properties`).
-/
import SchemaAssist.Schema.Build

namespace SchemaAssist.Schema

open SchemaAssist.Json

/-! ## 1. The walk -/

/-- The schema one segment below a schema. -/
def subschema? : Value → String → Option Value
  | .obj schema, segment =>
    if describesObject schema then Members.find? segment (propertySchemas schema)
    else if describesArray schema then itemSchema? schema
    else none
  | _, _ => none

/-- The schema at the end of a path. -/
def subschemaAt? (schema : Value) : List String → Option Value
  | [] => some schema
  | segment :: path => (subschema? schema segment).bind fun inner => subschemaAt? inner path

/-! ## 2. The walk in the tree -/

namespace Node

theorem find?_ofProperties (name : String) (properties : Members) :
    Members.find? name (ofProperties properties)
      = (Members.find? name properties).map ofSchema := by
  induction properties with
  | nil => simp [ofProperties]
  | cons m rest ih =>
    obtain ⟨k, schema⟩ := m
    rw [ofProperties, Members.find?_cons, Members.find?_cons, ih]
    split <;> rfl

/-- The node of a schema that is an object carries its hints. -/
theorem hints_ofSchema (schema : Members) :
    (ofSchema (.obj schema)).hints = Hints.ofSchema schema := by
  rw [ofSchema]
  split
  · rfl
  · split
    · split <;> rfl
    · rfl

theorem isObject_ofSchema (schema : Members) :
    (ofSchema (.obj schema)).isObject = describesObject schema := by
  rw [ofSchema]
  split
  · rename_i hobject
    rw [hobject]
    rfl
  · rename_i hobject
    rw [Bool.eq_false_iff.mpr hobject]
    split
    · split <;> rfl
    · rfl

/-- A step in the tree is a step in the document. -/
theorem child?_ofSchema (schema : Value) (segment : String) :
    (ofSchema schema).child? segment = (subschema? schema segment).map ofSchema := by
  cases schema with
  | obj schema =>
    rw [ofSchema, subschema?]
    by_cases hobject : describesObject schema = true
    · simp [hobject, child?, find?_ofProperties]
    · rw [if_neg hobject, if_neg hobject]
      by_cases harray : describesArray schema = true
      · rw [if_pos harray, if_pos harray]
        split <;> rename_i hitems <;> rw [hitems] <;> rfl
      · rw [if_neg harray, if_neg harray]
        rfl
  | _ => simp [ofSchema, subschema?, child?]

/-- **The node at the end of a path is the tree of the schema there.** -/
theorem navigate?_ofSchema (schema : Value) (path : List String) :
    (ofSchema schema).navigate? path = (subschemaAt? schema path).map ofSchema := by
  induction path generalizing schema with
  | nil => rfl
  | cons segment path ih =>
    rw [navigate?_cons, child?_ofSchema, subschemaAt?]
    cases subschema? schema segment with
    | none => rfl
    | some inner => exact ih inner

/-! ## 3. The nodes of a tree -/

/-- `n` is a node of the tree. -/
inductive Within (n : Node) : Node → Prop where
  | root : Within n n
  | property {m child : Node} {name : String} : (name, child) ∈ m.children → Within n child →
      Within n m
  | items {h : Hints} {items : Node} : Within n items → Within n (.array h (some items))

theorem Within.trans {n m root : Node} (h : n.Within m) (h' : m.Within root) : n.Within root := by
  induction h' with
  | root => exact h
  | property hchild _ ih => exact .property hchild ih
  | items _ ih => exact .items ih

/-- What a path leads to is a node of the tree. -/
theorem within_of_navigate? {root n : Node} {path : List String}
    (h : root.navigate? path = some n) : n.Within root := by
  induction path generalizing root with
  | nil =>
    cases h
    exact .root
  | cons segment path ih =>
    rw [navigate?_cons, Option.bind_eq_some_iff] at h
    obtain ⟨child, hchild, hn⟩ := h
    cases root with
    | scalar => cases hchild
    | object => exact .property (Members.mem_of_find? hchild) (ih hn)
    | array =>
      cases hchild
      exact .items (ih hn)

/-- The node of a property is one step below the object. -/
theorem child?_of_mem {n child : Node} {name : String} (hnames : (Members.names n.children).Nodup)
    (h : (name, child) ∈ n.children) : n.child? name = some child := by
  cases n with
  | object => exact Members.find?_of_mem hnames h
  | scalar | array => cases h

end Node

/-! ## 4. The properties of a template -/

/-- The properties that an object template shows are properties of the node. -/
theorem exists_child_of_mem_properties {n : Node} {includeOptional : Bool} {p : Property}
    (h : p ∈ n.properties includeOptional) :
    ∃ child, (p.name, child) ∈ n.children ∧ p.hints = child.hints := by
  rcases List.mem_append.mp h with h | h
  · simp only [Node.requiredProperties, List.mem_filterMap, Option.map_eq_some_iff] at h
    obtain ⟨name, -, child, hchild, rfl⟩ := h
    exact ⟨child, Members.mem_of_find? hchild, rfl⟩
  · split at h
    · simp only [Node.recommendedProperties, List.mem_map, List.mem_filter] at h
      obtain ⟨m, ⟨hm, -⟩, rfl⟩ := h
      exact ⟨m.2, hm, rfl⟩
    · cases h

end SchemaAssist.Schema
