/-
# The history of a registry

What matters of a sequence of requests for the entries that a registry keeps: which types were
looked up, with which answers of the loader, and when the entries were dropped.  `history` lists
these events in order.

A request is one event at most, but for `prewarm`, whose lookups are events of their own, and for
requests that look nothing up.  `Reaches r₀ h r` says that a registry that starts as `r₀` may be `r`
after the events `h`; every run reaches its last registry (`reaches_after`), and every lookup in a
history is a lookup of the registry that was reached before it (`Reaches.split`).  So what is shown
of `Reaches` by induction, event by event, holds in every run.
-/
import Mathlib.Data.List.Induction
import SchemaAssist.Registry.Request

namespace SchemaAssist.Registry

open SchemaAssist.Completion SchemaAssist.Json SchemaAssist.Resource SchemaAssist.Schema

/-! ## 1. Lookups -/

/-- A lookup of a type. -/
structure Lookup where
  type : String
  result : Except Failure (Option Entry)
  calls : List Call

/-- The lookup of a type in a registry. -/
def look (r : Registry) (type : String) : Lookup where
  type := type
  result := (r.lookup type).result
  calls := (r.lookup type).calls

/-- The lookups of some types one after the other, up to the first failure. -/
def looks (r : Registry) : List String → List Lookup
  | [] => []
  | type :: rest =>
    r.look type ::
      match (r.lookup type).result with
      | .ok _ => (r.lookup type).registry.looks rest
      | .error _ => []

theorem looks_singleton (r : Registry) (type : String) : r.looks [type] = [r.look type] := by
  simp only [looks]
  split <;> rfl

/-- The type of the document at a URI, if it can be told. -/
def typesFor (r : Registry) (uri language : String) : List String :=
  match typeFor r.types uri language with
  | .ok (some type) => [type]
  | _ => []

/-- The types that a request looks up one after the other. -/
def wanted (r : Registry) : Request → List String
  | .get type => [type]
  | .document type => [type]
  | .content type => if type = genericName then [] else [type]
  | .prewarm types => types
  | .complete _ uri language _ _ => r.typesFor uri language
  | .inline _ uri language _ _ => r.typesFor uri language
  | _ => []

/-! ## 2. Events -/

/-- What happens to the entries of a registry. -/
inductive Event where
  | lookup (l : Lookup)
  /-- All entries are dropped, and another loader is installed if one is given. -/
  | reset (loader : Option Loader)

/-- The events of a request. -/
def events (r : Registry) : Request → List Event
  | .clear => [.reset none]
  | .refresh loader _ => [.reset loader]
  | request => (r.looks (r.wanted request)).map .lookup

/-- The events of a sequence of requests. -/
def history (r : Registry) : List Request → List Event
  | [] => []
  | request :: rest => r.events request ++ history (r.serve request).registry rest

/-- The registry after a sequence of requests. -/
def after (r : Registry) : List Request → Registry
  | [] => r
  | request :: rest => after (r.serve request).registry rest

/-- The calls of a loader in a history. -/
def callsOf (h : List Event) : List Call :=
  h.flatMap fun event =>
    match event with
    | .lookup l => l.calls
    | .reset _ => []

/-- The part of a history after the entries were dropped for the last time. -/
def sinceReset (h : List Event) : List Event :=
  h.foldl (fun seen event =>
    match event with
    | .lookup l => seen ++ [.lookup l]
    | .reset _ => []) []

/-- The loader that is installed after a history. -/
def installed (first : Loader) (h : List Event) : Loader :=
  h.foldl (fun current event =>
    match event with
    | .reset (some loader) => loader
    | _ => current) first

@[simp] theorem callsOf_append (h h' : List Event) : callsOf (h ++ h') = callsOf h ++ callsOf h' :=
  List.flatMap_append

theorem callsOf_lookup (l : Lookup) : callsOf [.lookup l] = l.calls := by
  simp [callsOf]

@[simp] theorem sinceReset_lookup (h : List Event) (l : Lookup) :
    sinceReset (h ++ [.lookup l]) = sinceReset h ++ [.lookup l] := by
  simp [sinceReset]

@[simp] theorem sinceReset_reset (h : List Event) (loader : Option Loader) :
    sinceReset (h ++ [.reset loader]) = [] := by
  simp [sinceReset]

@[simp] theorem installed_lookup (first : Loader) (h : List Event) (l : Lookup) :
    installed first (h ++ [.lookup l]) = installed first h := by
  simp [installed]

@[simp] theorem installed_reset (first : Loader) (h : List Event) (loader : Option Loader) :
    installed first (h ++ [.reset loader]) = loader.getD (installed first h) := by
  cases loader <;> simp [installed]

/-- What happened since the last reset is the end of the history. -/
theorem exists_append_sinceReset (h : List Event) : ∃ before, h = before ++ sinceReset h := by
  induction h using List.reverseRecOn with
  | nil => exact ⟨[], rfl⟩
  | append_singleton h event ih =>
    cases event with
    | lookup l =>
      obtain ⟨before, hb⟩ := ih
      refine ⟨before, ?_⟩
      rw [sinceReset_lookup, ← List.append_assoc, ← hb]
    | reset loader => exact ⟨h ++ [.reset loader], by simp⟩

/-! ## 3. What requests do to the entries -/

/-- Two registries with the same entries and the same loader. -/
structure SameStore (r r' : Registry) : Prop where
  cache : r'.cache = r.cache
  loader : r'.loader = r.loader

theorem SameStore.refl (r : Registry) : SameStore r r := ⟨rfl, rfl⟩

/-- Asking for the generic document changes what is kept of it, and nothing else. -/
theorem registry_genericEntry (r : Registry) :
    r.genericEntry.registry = { r with generic := r.genericEntry.registry.generic } := by
  unfold genericEntry
  split
  · rfl
  · split <;> rfl

theorem sameStore_genericEntry (r : Registry) : SameStore r r.genericEntry.registry := by
  rw [registry_genericEntry]
  exact ⟨rfl, rfl⟩

theorem calls_genericEntry (r : Registry) : r.genericEntry.calls = [] := by
  unfold genericEntry
  split
  · rfl
  · split <;> rfl

theorem registry_prewarm_singleton (r : Registry) (type : String) :
    (r.prewarm [type]).registry = (r.lookup type).registry := by
  simp only [prewarm, Outcome.andThen, answer]
  split <;> rfl

theorem calls_prewarm_singleton (r : Registry) (type : String) :
    (r.prewarm [type]).calls = (r.lookup type).calls := by
  simp only [prewarm, Outcome.andThen, answer]
  split <;> simp

/-- A request on behalf of a document looks up its type, if it can be told. -/
theorem schemaFor_prewarm (r : Registry) (uri language : String) :
    (r.schemaFor uri language).registry = (r.prewarm (r.typesFor uri language)).registry
      ∧ (r.schemaFor uri language).calls = (r.prewarm (r.typesFor uri language)).calls := by
  rcases h : typeFor r.types uri language with e | (_ | type)
  · simp [schemaFor, typesFor, h, prewarm, fail, answer]
  · simp [schemaFor, typesFor, h, prewarm, answer]
  · simp only [schemaFor, typesFor, h]
    exact ⟨(registry_prewarm_singleton r type).symm, (calls_prewarm_singleton r type).symm⟩

/-- The published text of a document takes the lookup of its type, and the generic document where it
stands in. -/
theorem content_prewarm (r : Registry) (type : String) :
    let types := if type = genericName then [] else [type]
    SameStore (r.prewarm types).registry (r.content type).registry
      ∧ (r.content type).calls = (r.prewarm types).calls := by
  unfold content
  by_cases h : type = genericName
  · simp only [h, if_true]
    exact ⟨sameStore_genericEntry r, calls_genericEntry r⟩
  · simp only [h, if_false]
    rw [registry_prewarm_singleton, calls_prewarm_singleton]
    simp only [Outcome.andThen]
    split
    · exact ⟨.refl _, rfl⟩
    · rename_i entry hentry
      cases entry with
      | some entry => exact ⟨.refl _, by simp [answer]⟩
      | none =>
        exact ⟨sameStore_genericEntry _, by simp [Outcome.map, calls_genericEntry]⟩

/-- **A request that drops no entries is its lookups**, as far as entries, loader and calls go. -/
theorem serve_prewarm (r : Registry) (request : Request)
    (hclear : request ≠ .clear) (hrefresh : ∀ loader types, request ≠ .refresh loader types) :
    SameStore (r.prewarm (r.wanted request)).registry (r.serve request).registry
      ∧ (r.serve request).calls = (r.prewarm (r.wanted request)).calls := by
  cases request with
  | get type =>
    rw [wanted, registry_prewarm_singleton, calls_prewarm_singleton]
    exact ⟨.refl _, rfl⟩
  | document type =>
    rw [wanted, registry_prewarm_singleton, calls_prewarm_singleton]
    exact ⟨.refl _, rfl⟩
  | generic => exact ⟨sameStore_genericEntry r, calls_genericEntry r⟩
  | content type => exact content_prewarm r type
  | prewarm types => exact ⟨.refl _, rfl⟩
  | complete engine uri language text offset =>
    obtain ⟨hreg, hcalls⟩ := schemaFor_prewarm r uri language
    refine ⟨⟨?_, ?_⟩, hcalls⟩ <;> exact congrArg _ hreg
  | inline engine uri language text offset =>
    obtain ⟨hreg, hcalls⟩ := schemaFor_prewarm r uri language
    refine ⟨⟨?_, ?_⟩, hcalls⟩ <;> exact congrArg _ hreg
  | clear => exact absurd rfl hclear
  | refresh loader types => exact absurd rfl (hrefresh loader types)
  | uri | has | types | stats | write | delete => exact ⟨⟨rfl, rfl⟩, rfl⟩

/-! ## 4. Registries that are reached -/

/-- A registry that starts as `r₀` may be `r` after the events `h`. -/
inductive Reaches (r₀ : Registry) : List Event → Registry → Prop where
  | start : Reaches r₀ [] r₀
  | lookup {h : List Event} {r : Registry} (type : String) : Reaches r₀ h r →
      Reaches r₀ (h ++ [.lookup (r.look type)]) (r.lookup type).registry
  | reset {h : List Event} {r : Registry} (loader : Option Loader) (types : Option (List String)) :
      Reaches r₀ h r → Reaches r₀ (h ++ [.reset loader]) (r.refresh loader types)
  /-- Something else than entries and loader changes. -/
  | other {h : List Event} {r r' : Registry} : Reaches r₀ h r → SameStore r r' → Reaches r₀ h r'

namespace Reaches

variable {r₀ r : Registry} {h : List Event}

theorem prewarm : ∀ {r : Registry} {h : List Event} (types : List String), Reaches r₀ h r →
    Reaches r₀ (h ++ (r.looks types).map .lookup) (r.prewarm types).registry
  | r, h, [], hr => by simpa [looks, Registry.prewarm, answer] using hr
  | r, h, type :: rest, hr => by
    have hlookup := hr.lookup type
    cases hresult : (r.lookup type).result with
    | error e => simpa [looks, Registry.prewarm, Outcome.andThen, hresult] using hlookup
    | ok entry =>
      have := hlookup.prewarm rest
      simpa [looks, Registry.prewarm, Outcome.andThen, hresult] using this

/-- A request leads from the registry before it to the registry after it, by its events. -/
theorem serve (hr : Reaches r₀ h r) (request : Request) :
    Reaches r₀ (h ++ r.events request) (r.serve request).registry := by
  cases request with
  | clear => exact hr.reset none none
  | refresh loader types => exact hr.reset loader types
  | _ => exact (hr.prewarm _).other (serve_prewarm r _ (by simp) (by simp)).1

/-- **A run reaches its last registry.** -/
theorem run : ∀ {r : Registry} {h : List Event} (requests : List Request), Reaches r₀ h r →
    Reaches r₀ (h ++ history r requests) (after r requests)
  | r, h, [], hr => by simpa [history, after] using hr
  | r, h, request :: rest, hr => by
    have := (hr.serve request).run rest
    simpa [history, after] using this

/-- **Every lookup is that of a registry which was reached before it.** -/
theorem split (hr : Reaches r₀ h r) : ∀ {before rest : List Event} {l : Lookup},
    h = before ++ .lookup l :: rest → ∃ r', Reaches r₀ before r' ∧ l = r'.look l.type := by
  induction hr with
  | start => intro before rest l hsplit; simp at hsplit
  | @lookup h r type hr ih =>
    intro before rest l hsplit
    rcases List.eq_nil_or_concat rest with rfl | ⟨rest, last, rfl⟩
    · obtain ⟨rfl, hlast⟩ := List.append_inj' hsplit rfl
      have hl : r.look type = l := by simpa using hlast
      exact ⟨r, hr, by rw [← hl]; rfl⟩
    · have hsplit' : h ++ [.lookup (r.look type)] = (before ++ .lookup l :: rest) ++ [last] := by
        simpa using hsplit
      exact ih (List.append_inj' hsplit' rfl).1
  | @reset h r loader types hr ih =>
    intro before rest l hsplit
    rcases List.eq_nil_or_concat rest with rfl | ⟨rest, last, rfl⟩
    · obtain ⟨-, hlast⟩ := List.append_inj' hsplit rfl
      simp at hlast
    · have hsplit' : h ++ [.reset loader] = (before ++ .lookup l :: rest) ++ [last] := by
        simpa using hsplit
      exact ih (List.append_inj' hsplit' rfl).1
  | other _ _ ih => exact ih

end Reaches

theorem reaches_after (r : Registry) (requests : List Request) :
    Reaches r (history r requests) (after r requests) := by
  simpa using Reaches.start.run requests

/-! ## 5. The calls of a run -/

theorem calls_prewarm : ∀ (r : Registry) (types : List String),
    (r.prewarm types).calls = callsOf ((r.looks types).map .lookup)
  | r, [] => rfl
  | r, type :: rest => by
    cases hresult : (r.lookup type).result with
    | error e => simp [Registry.prewarm, Outcome.andThen, looks, hresult, callsOf, look]
    | ok entry =>
      have ih := calls_prewarm (r.lookup type).registry rest
      simp only [Registry.prewarm, Outcome.andThen, looks, hresult, ih]
      simp [callsOf, look]

/-- The calls of a request are those of its lookups. -/
theorem calls_serve (r : Registry) (request : Request) :
    (r.serve request).calls = callsOf (r.events request) := by
  cases request with
  | clear | refresh => rfl
  | _ => rw [(serve_prewarm r _ (by simp) (by simp)).2, calls_prewarm]; rfl

/-- **The calls of a run are those of its lookups.** -/
theorem calls_serveAll : ∀ (r : Registry) (requests : List Request),
    (r.serveAll requests).flatMap (·.calls) = callsOf (history r requests)
  | _, [] => rfl
  | r, request :: rest => by
    have ih := calls_serveAll (r.serve request).registry rest
    rw [serveAll, List.flatMap_cons, ih, history, callsOf_append, calls_serve]

end SchemaAssist.Registry
