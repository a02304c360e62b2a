/-
# The entries that are kept are those used last

The types whose entries a registry keeps, in the order of their last use, are the types that were
last looked up with success since the entries were dropped, each once and as many as there is room
for (`names_of_reaches`).  Whether a lookup asks the loader depends on nothing else.

`recentTypes` reads these types off the history, without regard to how much room there is.
-/
import SchemaAssist.Proofs.Registry.History
import SchemaAssist.Proofs.Registry.Lookup

namespace SchemaAssist.Registry

open SchemaAssist.Completion SchemaAssist.Json SchemaAssist.Resource SchemaAssist.Schema

/-! ## 1. The types that were looked up last -/

/-- The type of a lookup that found an entry. -/
def Event.found? : Event → Option String
  | .lookup l =>
    match l.result with
    | .ok (some _) => some l.type
    | _ => none
  | .reset _ => none

/-- The types that were looked up with success since the entries were dropped, the last one first
and each once. -/
def recentTypes (h : List Event) : List String :=
  ((sinceReset h).filterMap Event.found?).reverse.eraseDups

/-! ## 2. Lists without repetitions -/

section Lists

variable {t : String} {l : List String}

theorem eraseDups_filter (p : String → Bool) (l : List String) :
    (l.filter p).eraseDups = l.eraseDups.filter p := by
  match l with
  | [] => rfl
  | a :: as =>
    have ih := eraseDups_filter p (as.filter fun b => !b == a)
    rw [List.eraseDups_cons, List.filter_cons, List.filter_cons, ← ih, List.filter_filter]
    by_cases ha : p a = true
    · rw [if_pos ha, if_pos ha, List.eraseDups_cons, List.filter_filter]
      simp only [Bool.and_comm]
    · rw [if_neg ha, if_neg ha]
      congr 1
      refine List.filter_congr fun b _ => ?_
      by_cases hb : b = a
      · simp [hb, ha]
      · simp [hb]
termination_by l.length
decreasing_by
  simp only [List.length_cons]
  have := List.length_filter_le (fun b => !b == a) as
  omega

theorem nodup_eraseDups (l : List String) : l.eraseDups.Nodup := by
  match l with
  | [] => simp
  | a :: as =>
    rw [List.eraseDups_cons, List.nodup_cons]
    exact ⟨by simp [List.mem_eraseDups], nodup_eraseDups _⟩
termination_by l.length
decreasing_by
  simp only [List.length_cons]
  have := List.length_filter_le (fun b => !b == a) as
  omega

/-- What is not there is not missed. -/
theorem filter_ne_of_not_mem (h : t ∉ l) : l.filter (· != t) = l := by
  rw [List.filter_eq_self]
  intro a ha
  have : a ≠ t := by
    rintro rfl
    exact h ha
  simpa using this

/-- What is not among the first is not missed there. -/
theorem take_filter_of_not_mem : ∀ {l : List String} {k : Nat}, t ∉ l.take k →
    (l.filter (· != t)).take k = l.take k
  | [], _, _ => rfl
  | _ :: _, 0, _ => by simp
  | a :: as, k + 1, h => by
    simp only [List.take_succ_cons, List.mem_cons, not_or] at h
    have ha : a ≠ t := Ne.symm h.1
    simp [ha, take_filter_of_not_mem h.2]

/-- What is among the first leaves one place less there. -/
theorem filter_take_of_mem : ∀ {l : List String} {k : Nat}, l.Nodup → t ∈ l.take k →
    (l.take k).filter (· != t) = (l.filter (· != t)).take (k - 1)
  | [], _, _, h => by simp at h
  | _ :: _, 0, _, h => by simp at h
  | a :: as, k + 1, hnodup, h => by
    obtain ⟨ha, has⟩ := List.nodup_cons.mp hnodup
    by_cases hat : a = t
    · subst hat
      have hfilter : as.filter (· != a) = as := filter_ne_of_not_mem ha
      have htake : (as.take k).filter (· != a) = as.take k := by
        apply filter_ne_of_not_mem
        intro hmem
        exact ha (List.mem_of_mem_take hmem)
      simp [hfilter, htake]
    · have hmem : t ∈ as.take k := by
        simp only [List.take_succ_cons, List.mem_cons] at h
        exact h.resolve_left (Ne.symm hat)
      obtain ⟨n, rfl⟩ : ∃ n, k = n + 1 := ⟨k - 1, by
        have : k ≠ 0 := by rintro rfl; simp at hmem
        omega⟩
      have ih := filter_take_of_mem has hmem
      simp only [Nat.add_sub_cancel] at ih ⊢
      simp [hat, ih]

end Lists

/-! ## 3. Recency, event by event -/

theorem nodup_recentTypes (h : List Event) : (recentTypes h).Nodup :=
  nodup_eraseDups _

@[simp] theorem recentTypes_reset (h : List Event) (loader : Option Loader) :
    recentTypes (h ++ [.reset loader]) = [] := by
  simp [recentTypes]

/-- A type that was found comes first. -/
theorem recentTypes_of_found {h : List Event} {l : Lookup} {t : String}
    (hl : (Event.lookup l).found? = some t) :
    recentTypes (h ++ [.lookup l]) = t :: (recentTypes h).filter (· != t) := by
  simp only [recentTypes, sinceReset_lookup, List.filterMap_append, List.filterMap_cons, hl,
    List.filterMap_nil, List.reverse_append, List.reverse_singleton, List.singleton_append]
  rw [List.eraseDups_cons, ← eraseDups_filter]
  rfl

/-- A type that was not found is not counted. -/
theorem recentTypes_of_not_found {h : List Event} {l : Lookup}
    (hl : (Event.lookup l).found? = none) :
    recentTypes (h ++ [.lookup l]) = recentTypes h := by
  simp [recentTypes, hl]

/-- The types that are kept are the first of the recent ones, as many as there is room for. -/
structure Ordered (room : Nat) (h : List Event) (r : Registry) : Prop where
  capacity : r.cache.capacity = room
  names : r.cache.names = (recentTypes h).take room

namespace Ordered

variable {m : Nat} {h : List Event} {r : Registry}

/-- A lookup finds a kept entry just of the first recent types. -/
theorem find?_isSome_iff (ho : Ordered m h r) (t : String) :
    (r.cache.find? t).isSome = true ↔ t ∈ (recentTypes h).take m := by
  rw [← ho.names]
  exact Members.find?_isSome_iff t r.cache.entries

/-- A kept entry moves to the front. -/
theorem hit {n : Nat} (ho : Ordered (n + 1) h r) {t : String}
    (hmem : t ∈ (recentTypes h).take (n + 1)) :
    (r.cache.use t).names = (t :: (recentTypes h).filter (· != t)).take (n + 1) := by
  rw [Recent.names_use (by rw [ho.names]; exact hmem), ho.names,
    filter_take_of_mem (nodup_recentTypes h) hmem, Nat.add_sub_cancel, List.take_succ_cons]

/-- A new entry goes to the front, and the last one goes where there is no room left. -/
theorem miss {n : Nat} (ho : Ordered (n + 1) h r) {t : String}
    (hmem : t ∉ (recentTypes h).take (n + 1)) {entry : Entry} {cache : Recent Entry}
    (hinsert : r.cache.insert? t entry = some cache) :
    cache.names = (t :: (recentTypes h).filter (· != t)).take (n + 1) := by
  have hfilter : ((recentTypes h).take (n + 1)).filter (· != t) = (recentTypes h).take (n + 1) :=
    filter_ne_of_not_mem hmem
  have hmem' : t ∉ (recentTypes h).take n := by
    intro hn
    exact hmem (List.take_subset_take_left _ (Nat.le_succ n) hn)
  rw [Recent.names_insert? hinsert, ho.capacity, ho.names, hfilter, List.take_succ_cons,
    List.take_succ_cons, take_filter_of_not_mem hmem', List.take_take, Nat.min_eq_left (by omega)]

theorem lookup (hm : 1 ≤ m) (ho : Ordered m h r) (t : String) :
    Ordered m (h ++ [.lookup (r.look t)]) (r.lookup t).registry := by
  obtain ⟨n, rfl⟩ : ∃ n, m = n + 1 := ⟨m - 1, by omega⟩
  have hkept := ho.find?_isSome_iff t
  rcases r.lookup_cases t (by rw [ho.capacity]; omega) with
    ⟨entry, hfind, hlookup⟩ | ⟨result, hfind, -, hnone, hlookup⟩
      | ⟨entry, cache, hfind, -, hinsert, hlookup⟩
  · -- The entry is kept, so its type is among the first.
    have hmem : t ∈ (recentTypes h).take (n + 1) := by
      rw [← hkept, hfind]
      rfl
    have hfound : (Event.lookup (r.look t)).found? = some t := by
      simp [Event.found?, look, hlookup]
    rw [hlookup]
    refine ⟨(Recent.capacity_use t).trans ho.capacity, ?_⟩
    rw [recentTypes_of_found hfound]
    exact ho.hit hmem
  · -- The loader fails or has nothing; the store stays, and so do the recent types.
    have hfound : (Event.lookup (r.look t)).found? = none := by
      rcases result with e | (_ | entry)
      · simp [Event.found?, look, hlookup]
      · simp [Event.found?, look, hlookup]
      · exact absurd rfl (hnone entry)
    rw [hlookup]
    refine ⟨ho.capacity, ?_⟩
    rw [recentTypes_of_not_found hfound]
    exact ho.names
  · -- A new entry, whose type may be recent but is not among the first.
    have hmem : t ∉ (recentTypes h).take (n + 1) := by
      rw [← hkept, hfind]
      simp
    have hfound : (Event.lookup (r.look t)).found? = some t := by
      simp [Event.found?, look, hlookup]
    rw [hlookup]
    refine ⟨(Recent.capacity_insert? hinsert).trans ho.capacity, ?_⟩
    rw [recentTypes_of_found hfound]
    exact ho.miss hmem hinsert

end Ordered

/-- **In every registry that is reached the types that are kept are the first of the recent
ones.** -/
theorem names_of_reaches {r₀ r : Registry} {h : List Event} (hfresh : r₀.cache.entries = [])
    (hroom : 1 ≤ r₀.cache.capacity) (hr : Reaches r₀ h r) : Ordered r₀.cache.capacity h r := by
  induction hr with
  | start => exact ⟨rfl, by simp [Recent.names, Members.names, hfresh, recentTypes, sinceReset]⟩
  | lookup type _ ih => exact ih.lookup hroom type
  | reset loader types _ ih =>
    refine ⟨ih.capacity, ?_⟩
    rw [recentTypes_reset, List.take_nil]
    rfl
  | other _ hsame ih =>
    constructor
    · rw [hsame.cache]
      exact ih.capacity
    · rw [hsame.cache]
      exact ih.names

/-! ## 4. Whole runs -/

/-- A lookup asks the loader just for a type that is not kept, and once. -/
theorem types_of_calls {m : Nat} {h : List Event} {r : Registry} (hm : 1 ≤ m)
    (ho : Ordered m h r) (t : String) :
    (r.look t).calls.map (·.type) = if t ∈ (recentTypes h).take m then [] else [t] := by
  have hkept := ho.find?_isSome_iff t
  rcases r.lookup_cases t (by rw [ho.capacity]; exact hm) with
    ⟨entry, hfind, hlookup⟩ | ⟨result, hfind, -, -, hlookup⟩ | ⟨entry, cache, hfind, -, -, hlookup⟩
  · rw [if_pos (hkept.mp (by rw [hfind]; rfl))]
    simp [look, hlookup]
  all_goals
    rw [if_neg (by rw [← hkept, hfind]; simp)]
    simp [look, hlookup, callFor]

/-- **The registry keeps the types that were looked up last.**  After any run of requests these are,
in the order of their last use, the types that were found since the entries were dropped, as far as
there is room; a lookup in the run asks the loader once if its type was not among them, and else not
at all; and questions about the registry change neither the types nor their order. -/
theorem keeps_recent_types (r : Registry) (hfresh : r.cache.entries = [])
    (hroom : 1 ≤ r.cache.capacity) (requests : List Request) :
    (after r requests).cache.names = (recentTypes (history r requests)).take r.cache.capacity
      ∧ (after r requests).stats.cached
        = min r.cache.capacity (recentTypes (history r requests)).length
      ∧ (∀ before l rest, history r requests = before ++ .lookup l :: rest →
        l.calls.map (·.type)
          = if l.type ∈ (recentTypes before).take r.cache.capacity then [] else [l.type])
      ∧ (r.serveAll requests).flatMap (·.calls) = callsOf (history r requests)
      ∧ ∀ type, ∀ request ∈ [.has type, .stats, .types, .generic],
        ((after r requests).serve request).registry.cache = (after r requests).cache := by
  have ho := names_of_reaches hfresh hroom (reaches_after r requests)
  refine ⟨ho.names, ?_, ?_, calls_serveAll r requests, ?_⟩
  · have hlength := congrArg List.length ho.names
    simpa [Recent.names, Members.names, stats] using hlength
  · intro before l rest hsplit
    obtain ⟨r', hr', hl⟩ := (reaches_after r requests).split hsplit
    rw [hl]
    exact types_of_calls hroom (names_of_reaches hfresh hroom hr') l.type
  · intro type request hrequest
    simp only [List.mem_cons, List.not_mem_nil, or_false] at hrequest
    rcases hrequest with rfl | rfl | rfl | rfl
    · rfl
    · rfl
    · rfl
    · exact (sameStore_genericEntry _).cache

theorem keeps_recent_types_sample :
    (after (ofSchemas [("t", .obj []), ("u", .obj [])] 1) [.get "t", .get "u"]).cache.names = ["u"]
      ∧ (after (ofSchemas [("t", .obj []), ("u", .obj [])] 1) [.get "t", .get "u"]).stats.cached
        = 1 := by
  have hrecent : recentTypes
      (history (ofSchemas [("t", .obj []), ("u", .obj [])] 1) [.get "t", .get "u"])
        = ["u", "t"] := by
    simp [history, events, wanted, looks_singleton, serve, get, Outcome.map, look, lookup,
      ofSchemas, Recent.find?, Members.find?, callFor, Call.answer, Loader.ofSchemas, documentOf,
      entryOf, build_empty, Recent.insert?, Recent.moveToFront, recentTypes, sinceReset,
      Event.found?]
    rfl
  have hkept := keeps_recent_types (ofSchemas [("t", .obj []), ("u", .obj [])] 1) rfl (by decide)
    [.get "t", .get "u"]
  rw [hrecent] at hkept
  exact ⟨hkept.1, hkept.2.1⟩

end SchemaAssist.Registry
