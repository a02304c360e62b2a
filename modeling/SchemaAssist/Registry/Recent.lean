/-
# Stores that keep what was used last

A store of named values with room for a fixed number of them.  It lists its entries by the time of
their last use, the latest first; using an entry moves it to the front, and a new entry pushes out
the one at the end when there is no room left.  A store without room takes nothing.
-/
import SchemaAssist.Json.Value

namespace SchemaAssist.Registry

open SchemaAssist.Json

/-- A store of at most `capacity` named values. -/
structure Recent (α : Type) where
  capacity : Nat
  /-- The entries, the one used last first. -/
  entries : List (String × α) := []

namespace Recent

variable {α : Type}

/-! ## 1. Operations -/

/-- The value under a name. -/
def find? (store : Recent α) (name : String) : Option α :=
  Members.find? name store.entries

/-- Whether there is a value under a name. -/
def contains (store : Recent α) (name : String) : Bool :=
  (store.find? name).isSome

/-- The names of the entries, the one used last first. -/
def names (store : Recent α) : List String :=
  Members.names store.entries

/-- The entries with a value under a name at the front, and no other entry of that name. -/
def moveToFront (name : String) (v : α) (entries : List (String × α)) : List (String × α) :=
  (name, v) :: entries.filter (·.1 != name)

/-- The store after the entry of a name was used. -/
def use (store : Recent α) (name : String) : Recent α :=
  match store.find? name with
  | some v => { store with entries := moveToFront name v store.entries }
  | none => store

/-- The store with a new value under a name, or `none` if there is no room at all. -/
def insert? (store : Recent α) (name : String) (v : α) : Option (Recent α) :=
  if store.capacity = 0 then none
  else some { store with entries := (moveToFront name v store.entries).take store.capacity }

/-- The store without its entries. -/
def clear (store : Recent α) : Recent α :=
  { store with entries := [] }

/-! ## 2. Names -/

theorem names_moveToFront (name : String) (v : α) (entries : List (String × α)) :
    Members.names (moveToFront name v entries)
      = name :: (Members.names entries).filter (· != name) := by
  simp [moveToFront, Members.names, List.filter_map, Function.comp_def]

/-- A value put to the front is found under its name. -/
theorem find?_moveToFront (name : String) (v : α) (entries : List (String × α)) :
    Members.find? name (moveToFront name v entries) = some v := by
  simp [moveToFront, Members.find?]

/-- A new value is found under its name. -/
theorem find?_of_insert? {store store' : Recent α} {name : String} {v : α}
    (h : store.insert? name v = some store') : store'.find? name = some v := by
  simp only [insert?] at h
  split at h
  · simp at h
  · rename_i hc
    simp only [Option.some.injEq] at h
    subst h
    obtain ⟨n, hn⟩ : ∃ n, store.capacity = n + 1 := ⟨store.capacity - 1, by omega⟩
    simp [find?, moveToFront, hn, Members.find?]

end Recent

end SchemaAssist.Registry
