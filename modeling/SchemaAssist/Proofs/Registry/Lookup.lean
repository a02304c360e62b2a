/-
# What a lookup does

A lookup in a registry with room for an entry goes one of three ways (`lookup_cases`): the entry is
kept and used; the loader is asked and there is nothing to keep; or the loader is asked and a new
entry is put in front.  What the store of entries looks like afterwards is said by name
(`find?_use`, `find?_of_insert?_ne`) and as a list of names (`names_use`, `names_insert?`).
-/
import SchemaAssist.Registry.Basic

namespace SchemaAssist.Registry

open SchemaAssist.Json SchemaAssist.Schema

/-! ## 1. The store of entries -/

namespace Recent

variable {α : Type} {store store' : Recent α}

theorem find?_filter_ne {name other : String} (h : other ≠ name) :
    ∀ entries : List (String × α),
      Members.find? other (entries.filter (·.1 != name)) = Members.find? other entries
  | [] => rfl
  | (k, v) :: rest => by
    have ih := find?_filter_ne h rest
    by_cases hk : k = name
    · subst hk
      simp [Members.find?_cons, ih, h.symm]
    · simp [hk, Members.find?_cons, ih]

/-- Moving a name to the front changes no other name. -/
theorem find?_moveToFront_ne {name other : String} (h : other ≠ name) (v : α)
    (entries : List (String × α)) :
    Members.find? other (moveToFront name v entries) = Members.find? other entries := by
  rw [moveToFront, Members.find?_cons, if_neg h.symm, find?_filter_ne h]

/-- Using an entry changes no value. -/
theorem find?_use (name other : String) : (store.use name).find? other = store.find? other := by
  unfold use
  split
  · rename_i v hv
    by_cases h : other = name
    · subst h
      exact (find?_moveToFront _ _ _).trans hv.symm
    · exact find?_moveToFront_ne h v store.entries
  · rfl

/-- What is found among the first entries is found among all. -/
theorem find?_of_take {name : String} {v : α} : ∀ {n : Nat} {entries : List (String × α)},
    Members.find? name (entries.take n) = some v → Members.find? name entries = some v
  | 0, _, h => by simp at h
  | _ + 1, [], h => by simp at h
  | n + 1, (k, w) :: rest, h => by
    rw [List.take_succ_cons, Members.find?_cons] at h
    rw [Members.find?_cons]
    split
    · rwa [if_pos ‹k = name›] at h
    · rw [if_neg ‹¬ k = name›] at h
      exact find?_of_take h

/-- A new entry may push others out, but changes none. -/
theorem find?_of_insert?_ne {name other : String} {v w : α} (h : other ≠ name)
    (hinsert : store.insert? name v = some store') (hfind : store'.find? other = some w) :
    store.find? other = some w := by
  simp only [insert?] at hinsert
  split at hinsert
  · simp at hinsert
  · simp only [Option.some.injEq] at hinsert
    subst hinsert
    have := find?_of_take hfind
    rwa [find?_moveToFront_ne h] at this

theorem names_use {name : String} (h : name ∈ store.names) :
    (store.use name).names = name :: store.names.filter (· != name) := by
  obtain ⟨v, hv⟩ := Option.isSome_iff_exists.mp ((Members.find?_isSome_iff _ _).mpr h)
  have hv : store.find? name = some v := hv
  simp only [use, hv, names]
  exact names_moveToFront name v store.entries

theorem names_insert? {name : String} {v : α} (h : store.insert? name v = some store') :
    store'.names = (name :: store.names.filter (· != name)).take store.capacity := by
  simp only [insert?] at h
  split at h
  · simp at h
  · simp only [Option.some.injEq] at h
    subst h
    rw [names, names, ← names_moveToFront name v, Members.names, Members.names, List.map_take]

theorem capacity_use (name : String) : (store.use name).capacity = store.capacity := by
  unfold use
  split <;> rfl

theorem capacity_insert? {name : String} {v : α} (h : store.insert? name v = some store') :
    store'.capacity = store.capacity := by
  simp only [insert?] at h
  split at h
  · simp at h
  · simp only [Option.some.injEq] at h
    subst h
    rfl

end Recent

/-! ## 2. Entries from answers -/

/-- An entry holds the document of the answer and its tree. -/
theorem answer_of_entryOf {a : LoadResult} {entry : Entry} (h : entryOf a = .ok (some entry)) :
    a = .ok (some entry.document) ∧ Schema.build entry.document = .ok entry.root := by
  unfold entryOf at h
  split at h
  · simp at h
  · simp at h
  · split at h
    · simp at h
    · rename_i root hroot
      simp only [Except.ok.injEq, Option.some.injEq] at h
      subst h
      exact ⟨rfl, hroot⟩

theorem entryOf_of_build {document : Value} {root : Node}
    (h : Schema.build document = .ok root) :
    entryOf (.ok (some document)) = .ok (some { document, root }) := by
  simp [entryOf, h]

/-- The empty schema describes a text. -/
theorem build_empty : Schema.build (.obj []) = .ok (.scalar { types := ["string"] }) := by
  simp [build, hasReadableRequired, Node.ofSchema, describesObject, describesArray, Hints.ofSchema,
    typeTags, inferredTypes, Members.find?]

/-! ## 3. The lookup -/

/-- **The three ways of a lookup.** -/
theorem lookup_cases (r : Registry) (type : String) (hroom : 1 ≤ r.cache.capacity) :
    (∃ entry, r.cache.find? type = some entry
      ∧ r.lookup type = {
          result := .ok (some entry)
          registry := { r with cache := r.cache.use type } })
    ∨ (∃ result, r.cache.find? type = none
      ∧ entryOf (r.callFor type).answer = result ∧ (∀ entry, result ≠ .ok (some entry))
      ∧ r.lookup type = {
          result
          registry := { r with asked := type :: r.asked }
          calls := [r.callFor type] })
    ∨ (∃ entry cache, r.cache.find? type = none
      ∧ entryOf (r.callFor type).answer = .ok (some entry)
      ∧ r.cache.insert? type entry = some cache
      ∧ r.lookup type = {
          result := .ok (some entry)
          registry := { r with asked := type :: r.asked, cache }
          calls := [r.callFor type] }) := by
  cases hfind : r.cache.find? type with
  | some entry =>
    left
    exact ⟨entry, rfl, by simp [lookup, hfind, answer]⟩
  | none =>
    right
    cases hentry : entryOf (r.callFor type).answer with
    | error e =>
      left
      exact ⟨.error e, rfl, rfl, by simp, by simp [lookup, hfind, hentry, fail]⟩
    | ok entry? =>
      cases entry? with
      | none =>
        left
        exact ⟨.ok none, rfl, rfl, by simp, by simp [lookup, hfind, hentry]⟩
      | some entry =>
        right
        cases hinsert : r.cache.insert? type entry with
        | none =>
          have : r.cache.capacity ≠ 0 := by omega
          simp [Recent.insert?, this] at hinsert
        | some cache =>
          exact ⟨entry, cache, rfl, rfl, hinsert, by simp [lookup, hfind, hentry, hinsert]⟩

end SchemaAssist.Registry
