/-
# JSON values

The values that documents, schemas and metadata hold.  Integers are unbounded and kept apart from
doubles: `2` and `2.0` are different values.  An object is the list of its members in order; the
reader makes sure that no name occurs twice.

Beside the type stand the operations on lists of members (`Members.find?`, `Members.put`,
`Members.ofPairs`) and the two views of a value that loosely shaped data is read through: whether it
counts as true, and what it yields when it is walked over.
-/
import SchemaAssist.Json.Double

namespace SchemaAssist.Json

/-! ## 1. The type -/

/-- A JSON value. -/
inductive Value where
  | null
  | bool (b : Bool)
  /-- An integer, written without fraction and exponent. -/
  | int (n : Int)
  /-- A double, written with a fraction or an exponent. -/
  | double (d : Double)
  | str (s : String)
  | arr (items : List Value)
  /-- An object: its members in order. -/
  | obj (members : List (String × Value))
  deriving Inhabited, Repr

/-- The members of an object. -/
abbrev Members := List (String × Value)

/-- The kinds of JSON values. -/
inductive Kind where
  | null | bool | int | double | str | arr | obj
  deriving DecidableEq, Repr

/-- The kind of a value. -/
def Value.kind : Value → Kind
  | .null => .null
  | .bool _ => .bool
  | .int _ => .int
  | .double _ => .double
  | .str _ => .str
  | .arr _ => .arr
  | .obj _ => .obj

/-! ## 2. Members -/

namespace Members

variable {α : Type}

/-- The value of the first member named `name`. -/
def find? (name : String) : List (String × α) → Option α
  | [] => none
  | (k, v) :: rest => if k = name then some v else find? name rest

/-- `members` with the value `v` under `name`: in the place of the member of that name, or at the
end if there is none. -/
def put (name : String) (v : α) : List (String × α) → List (String × α)
  | [] => [(name, v)]
  | (k, w) :: rest => if k = name then (k, v) :: rest else (k, w) :: put name v rest

/-- The members that a sequence of pairs leaves when the last pair of a name wins and takes the
place of the first one. -/
def ofPairs (pairs : List (String × α)) : List (String × α) :=
  pairs.foldl (fun members p => put p.1 p.2 members) []

/-- The names of the members, in order. -/
def names (members : List (String × α)) : List String :=
  members.map (·.1)

@[simp] theorem find?_nil (name : String) : find? name ([] : List (String × α)) = none := rfl

theorem find?_cons (name k : String) (v : α) (rest : List (String × α)) :
    find? name ((k, v) :: rest) = if k = name then some v else find? name rest := rfl

/-- After `put`, the name has the new value and all other names keep theirs. -/
theorem find?_put (name k : String) (v : α) (members : List (String × α)) :
    find? name (put k v members) = if k = name then some v else find? name members := by
  induction members with
  | nil => simp [put, find?]
  | cons m rest ih =>
    obtain ⟨j, w⟩ := m
    simp only [put]
    split
    · rename_i h
      subst h
      simp only [find?]
      split <;> rfl
    · simp only [find?, ih]
      split <;> split <;> simp_all

/-- A name is found exactly when some member bears it. -/
theorem find?_isSome_iff (name : String) (members : List (String × α)) :
    (find? name members).isSome = true ↔ name ∈ names members := by
  induction members with
  | nil => simp [find?, names]
  | cons m rest ih =>
    obtain ⟨k, v⟩ := m
    simp only [find?, names, List.map_cons, List.mem_cons] at ih ⊢
    split
    · simp_all
    · rename_i h
      rw [ih]
      constructor
      · exact Or.inr
      · rintro (rfl | h')
        · exact absurd rfl h
        · exact h'

/-- A found value belongs to a member of that name. -/
theorem mem_of_find? {name : String} {v : α} {members : List (String × α)}
    (h : find? name members = some v) : (name, v) ∈ members := by
  induction members with
  | nil => simp [find?] at h
  | cons m rest ih =>
    obtain ⟨k, w⟩ := m
    simp only [find?] at h
    split at h
    · simp_all
    · exact List.mem_cons_of_mem _ (ih h)

/-- Where names are distinct, every member is found under its name. -/
theorem find?_of_mem {name : String} {v : α} {members : List (String × α)}
    (hnames : (names members).Nodup) (h : (name, v) ∈ members) : find? name members = some v := by
  induction members with
  | nil => cases h
  | cons m rest ih =>
    obtain ⟨k, w⟩ := m
    simp only [names, List.map_cons, List.nodup_cons] at hnames ih
    rw [find?_cons]
    rcases List.mem_cons.mp h with h | h
    · cases h
      exact if_pos rfl
    · have hne : ¬ k = name := by
        rintro rfl
        exact hnames.1 (List.mem_map.mpr ⟨_, h, rfl⟩)
      rw [if_neg hne, ih hnames.2 h]

/-- The members that `put` leaves are the new one and old ones. -/
theorem eq_or_mem_of_mem_put {k : String} {v : α} {m : String × α} {members : List (String × α)}
    (h : m ∈ put k v members) : m = (k, v) ∨ m ∈ members := by
  induction members with
  | nil => exact .inl (List.mem_singleton.mp h)
  | cons m' rest ih =>
    obtain ⟨j, w⟩ := m'
    simp only [put] at h
    split at h
    · rename_i hj
      subst hj
      rcases List.mem_cons.mp h with h | h
      · exact .inl h
      · exact .inr (List.mem_cons_of_mem _ h)
    · rcases List.mem_cons.mp h with h | h
      · exact .inr (h ▸ List.mem_cons_self)
      · exact (ih h).imp_right (List.mem_cons_of_mem _)

/-- A new name goes to the end. -/
theorem put_of_not_mem {k : String} {v : α} {members : List (String × α)}
    (h : k ∉ names members) : put k v members = members ++ [(k, v)] := by
  induction members with
  | nil => rfl
  | cons m rest ih =>
    obtain ⟨j, w⟩ := m
    simp only [names, List.map_cons, List.mem_cons, not_or] at h ih
    rw [put, if_neg (Ne.symm h.1), ih h.2, List.cons_append]

/-- Pairs with distinct names are left as they are. -/
theorem ofPairs_of_nodup {pairs : List (String × α)} (h : (names pairs).Nodup) :
    ofPairs pairs = pairs := by
  have step : ∀ (ps acc : List (String × α)), (names (acc ++ ps)).Nodup →
      ps.foldl (fun members p => put p.1 p.2 members) acc = acc ++ ps := by
    intro ps
    induction ps with
    | nil => intro acc _; rw [List.foldl_nil, List.append_nil]
    | cons p ps ih =>
      intro acc hacc
      have hassoc : acc ++ p :: ps = acc ++ [p] ++ ps := by simp
      have hp : p.1 ∉ names acc := by
        simp only [names, List.map_append, List.map_cons, List.nodup_append] at hacc
        intro hmem
        exact hacc.2.2 p.1 hmem p.1 List.mem_cons_self rfl
      rw [List.foldl_cons, put_of_not_mem hp, hassoc]
      rw [hassoc] at hacc
      exact ih _ hacc
  exact step pairs [] h

end Members

/-! ## 3. Views -/

namespace Value

/-- The members of an object, if the value is one. -/
def members? : Value → Option Members
  | .obj ms => some ms
  | _ => none

/-- The value under `name`, if the value is an object that has it. -/
def get? (name : String) : Value → Option Value
  | .obj ms => Members.find? name ms
  | _ => none

/-- The string, if the value is one. -/
def string? : Value → Option String
  | .str s => some s
  | _ => none

/-- Whether a value counts as true: `null`, `false`, zeros and everything empty do not. -/
def isTruthy : Value → Bool
  | .null => false
  | .bool b => b
  | .int n => n != 0
  | .double d => !d.isZero
  | .str s => !s.isEmpty
  | .arr items => !items.isEmpty
  | .obj ms => !ms.isEmpty

/-- What walking over a value yields: the items of an array, the characters of a string, the names
of an object.  The other values cannot be walked over. -/
def elements? : Value → Option (List Value)
  | .str s => some (s.toList.map fun c => .str (String.singleton c))
  | .arr items => some items
  | .obj ms => some (ms.map fun m => .str m.1)
  | _ => none

/-- What walking over an optional part of a record yields: nothing where the part counts as false,
`none` where it cannot be walked over. -/
def optionalElements? (v : Value) : Option (List Value) :=
  if v.isTruthy then v.elements? else some []

/-- The value under a name is smaller than the object. -/
theorem sizeOf_lt_of_find? {name : String} {v : Value} {ms : Members}
    (h : Members.find? name ms = some v) : sizeOf v < sizeOf ms := by
  have hmem := List.sizeOf_lt_of_mem (Members.mem_of_find? h)
  simp only [Prod.mk.sizeOf_spec] at hmem
  omega

end Value

end SchemaAssist.Json
