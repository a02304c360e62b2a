/-
# Lookups that find nothing

A lookup is `Fruitless` if it fails, wherever it does, or finds no document.  All that it leaves
behind is that the loader has been asked (`lookup_of_fruitless`): entries, the order of their use,
loader, types and the generic entry stay as they were.

A request goes on from there, and one kind of them does not leave the generic entry as it was: the
published text of a type without a document is that of the generic document, whose entry is kept
from then on (`StandsIn`, `generic_kept_after_content`).  No answer ever tells whether it is kept.

The loader may be one that answers otherwise after each call, and then later answers tell that there
was one call more.  So two registries are compared that differ in this call: `Aside type asked r r'`
says that `r'` has asked for `type` once more, at the time when `asked` had been asked for, and that
the loader of `r` answers without that call as the loader of `r'` does after it.  Every request
keeps two such registries related and is answered the same by both (`Aside.serve`), and so is every
sequence of requests (`Aside.serveAll`).

`fruitless_leaves_no_trace` puts it together, with prewarming: one that fails leaves the state of
the lookups before the failure.
-/
import SchemaAssist.Proofs.Registry.Content
import SchemaAssist.Proofs.Registry.History
import SchemaAssist.Proofs.Registry.Lookup

namespace SchemaAssist.Registry

open SchemaAssist.Completion SchemaAssist.Json SchemaAssist.Resource SchemaAssist.Schema

/-! ## 1. The lookup -/

/-- The lookup of a type fails or finds no document. -/
def Fruitless (r : Registry) (type : String) : Prop :=
  ∀ entry, (r.lookup type).result ≠ .ok (some entry)

/-- **A lookup is fruitless where the type is not kept and no entry can be made or there is no room
for one.** -/
theorem fruitless_iff {r : Registry} {type : String} : r.Fruitless type ↔
    r.cache.find? type = none
      ∧ ∀ entry, entryOf (r.callFor type).answer = .ok (some entry) → r.cache.capacity = 0 := by
  constructor
  · intro h
    cases hfind : r.cache.find? type with
    | some entry => exact absurd (by simp [lookup, hfind, answer]) (h entry)
    | none =>
      refine ⟨rfl, fun entry hentry => ?_⟩
      by_contra hroom
      refine h entry ?_
      simp [lookup, hfind, hentry, Recent.insert?, hroom]
  · rintro ⟨hfind, hroom⟩ entry
    cases hentry : entryOf (r.callFor type).answer with
    | error e => simp [lookup, hfind, hentry, fail]
    | ok entry? =>
      cases entry? with
      | none => simp [lookup, hfind, hentry]
      | some new => simp [lookup, hfind, hentry, Recent.insert?, hroom new hentry, fail]

/-- **A fruitless lookup asks the loader and changes nothing else.** -/
theorem lookup_of_fruitless {r : Registry} {type : String} (h : r.Fruitless type) :
    (r.lookup type).registry = { r with asked := type :: r.asked }
      ∧ (r.lookup type).calls = [r.callFor type] := by
  obtain ⟨hfind, hroom⟩ := fruitless_iff.mp h
  cases hentry : entryOf (r.callFor type).answer with
  | error e => simp [lookup, hfind, hentry, fail]
  | ok entry? =>
    cases entry? with
    | none => simp [lookup, hfind, hentry]
    | some new => simp [lookup, hfind, hentry, Recent.insert?, hroom new hentry, fail]

/-- A prewarm of some types and others is that of the first and then that of the others. -/
theorem prewarm_append (others : List String) : ∀ {r : Registry} {types : List String},
    (r.prewarm types).result = .ok () →
      (r.prewarm (types ++ others)).result = ((r.prewarm types).registry.prewarm others).result
        ∧ (r.prewarm (types ++ others)).registry
          = ((r.prewarm types).registry.prewarm others).registry
  | _, [], _ => ⟨rfl, rfl⟩
  | r, type :: rest, h => by
    rw [prewarm, Outcome.andThen] at h
    cases hresult : (r.lookup type).result with
    | error e =>
      rw [hresult] at h
      cases h
    | ok entry =>
      rw [hresult] at h
      simp only [List.cons_append, prewarm, Outcome.andThen, hresult]
      exact prewarm_append others h

/-- A prewarm goes on after a type without a document, wherever it comes to it. -/
theorem prewarm_of_none {r : Registry} {done : List String} {type : String} (rest : List String)
    (hdone : (r.prewarm done).result = .ok ())
    (h : ((r.prewarm done).registry.lookup type).result = .ok none) :
    let later := { (r.prewarm done).registry with asked := type :: (r.prewarm done).registry.asked }
    (r.prewarm (done ++ type :: rest)).result = (prewarm later rest).result
      ∧ (r.prewarm (done ++ type :: rest)).registry = (prewarm later rest).registry := by
  intro later
  have hfruitless : (r.prewarm done).registry.Fruitless type := by simp [Fruitless, h]
  obtain ⟨hresult, hregistry⟩ := prewarm_append (type :: rest) hdone
  rw [hresult, hregistry, prewarm, Outcome.andThen, h, (lookup_of_fruitless hfruitless).1]
  exact ⟨rfl, rfl⟩

/-- **A prewarm that fails is the lookups before the failure, and the one that fails.** -/
theorem prewarm_error : ∀ {r : Registry} {types : List String} {e : Failure},
    (r.prewarm types).result = .error e →
      ∃ done type rest, types = done ++ type :: rest ∧ (r.prewarm done).result = .ok ()
        ∧ ((r.prewarm done).registry.lookup type).result = .error e
        ∧ (r.prewarm types).registry = ((r.prewarm done).registry.lookup type).registry
  | _, [], _, h => by cases h
  | r, type :: rest, e, h => by
    rw [prewarm, Outcome.andThen] at h ⊢
    cases hresult : (r.lookup type).result with
    | error e' =>
      rw [hresult] at h
      cases h
      exact ⟨[], type, rest, rfl, rfl, hresult, rfl⟩
    | ok entry =>
      rw [hresult] at h
      obtain ⟨done, last, others, rfl, hdone, hlast, hregistry⟩ := prewarm_error h
      refine ⟨type :: done, last, others, rfl, ?_, ?_, ?_⟩ <;>
        simp only [prewarm, Outcome.andThen, hresult]
      · exact hdone
      · exact hlast
      · exact hregistry

/-! ## 2. The generic document -/

/-- The generic document depends on what is kept of it only. -/
theorem genericEntry_congr (r r' : Registry) (h : r'.generic = r.generic) :
    r'.genericEntry.result = r.genericEntry.result
      ∧ r'.genericEntry.registry.generic = r.genericEntry.registry.generic := by
  unfold genericEntry
  rw [h]
  split
  · exact ⟨rfl, h⟩
  · split
    · exact ⟨rfl, h⟩
    · exact ⟨rfl, rfl⟩

/-- There always is an entry of it, and it is kept from then on. -/
theorem exists_genericEntry (r : Registry) :
    ∃ entry, r.genericEntry.result = .ok entry ∧ r.genericEntry.registry.generic = some entry := by
  cases hkept : r.generic with
  | some entry => exact ⟨entry, by simp [genericEntry, hkept, answer]⟩
  | none =>
    exact ⟨{ document := genericDocument, root := Node.ofSchema genericDocument },
      by simp [genericEntry, hkept, build_genericDocument, answer]⟩

/-- What is kept of it gives the same answer again. -/
theorem genericEntry_genericEntry (r : Registry) :
    r.genericEntry.registry.genericEntry.result = r.genericEntry.result := by
  obtain ⟨entry, hresult, hkept⟩ := exists_genericEntry r
  rw [hresult]
  generalize r.genericEntry.registry = kept at hkept ⊢
  simp [genericEntry, hkept, answer]

/-! ## 3. One call more -/

/-- Without a call for `type`, at the time when `asked` had been asked for, `loader` answers as
`loader'` does after it. -/
def AnswersWithout (type : String) (asked : List String) (loader loader' : Loader) : Prop :=
  ∀ files later other, loader files (later ++ asked) other
    = loader' files (later ++ type :: asked) other

/-- The loader as it answers after one call more, for `type` at the time when `asked` had been asked
for. -/
def Loader.afterCall (type : String) (asked : List String) (loader : Loader) : Loader :=
  fun files seen => loader files (seen.take (seen.length - asked.length) ++ type :: asked)

theorem answersWithout_afterCall (type : String) (asked : List String) (loader : Loader) :
    AnswersWithout type asked (loader.afterCall type asked) loader := by
  intro files later other
  simp [Loader.afterCall]

/-- The registry `r'` has asked for `type` once more than `r`, at the time when `asked` had been
asked for, and otherwise they are alike. -/
structure Aside (type : String) (asked : List String) (r r' : Registry) : Prop where
  /-- The call makes the whole difference between the loaders. -/
  loader : AnswersWithout type asked r.loader r'.loader
  types : r'.types = r.types
  cache : r'.cache = r.cache
  /-- The generic document is the same, whether it is kept or not. -/
  generic : r'.genericEntry.result = r.genericEntry.result
  files : r'.files = r.files
  /-- The calls are the same, apart from that one. -/
  asked : ∃ later, r.asked = later ++ asked ∧ r'.asked = later ++ type :: asked

/-- Two outcomes that look the same and leave registries that differ in the call. -/
structure SameOutcome {α : Type} (type : String) (asked : List String) (o o' : Outcome α) :
    Prop where
  result : o'.result = o.result
  /-- The loader is asked for the same types. -/
  calls : o'.calls.map (·.type) = o.calls.map (·.type)
  registry : Aside type asked o.registry o'.registry

section OneCallMore

variable {type : String} {asked : List String} {r r' : Registry} {α β : Type}

theorem SameOutcome.map {o o' : Outcome α} (h : SameOutcome type asked o o') (f : α → β) :
    SameOutcome type asked (o.map f) (o'.map f) :=
  ⟨by rw [Outcome.map, Outcome.map, h.result], h.calls, h.registry⟩

theorem SameOutcome.andThen {o o' : Outcome α} (h : SameOutcome type asked o o')
    {next next' : α → Registry → Outcome β}
    (hnext : ∀ a {r r' : Registry}, Aside type asked r r' →
      SameOutcome type asked (next a r) (next' a r')) :
    SameOutcome type asked (o.andThen next) (o'.andThen next') := by
  rw [Outcome.andThen, Outcome.andThen, h.result]
  cases hresult : o.result with
  | error e => exact ⟨rfl, h.calls, h.registry⟩
  | ok a =>
    have hafter := hnext a h.registry
    refine ⟨hafter.result, ?_, hafter.registry⟩
    simp only [List.map_append, h.calls, hafter.calls]

namespace Aside

theorem answer (h : Aside type asked r r') (a : α) :
    SameOutcome type asked (r.answer a) (r'.answer a) :=
  ⟨rfl, rfl, h⟩

theorem generic_congr (h : Aside type asked r r') {s s' : Registry} (hs : s.generic = r.generic)
    (hs' : s'.generic = r'.generic) : s'.genericEntry.result = s.genericEntry.result := by
  rw [(genericEntry_congr _ _ hs').1, h.generic, (genericEntry_congr _ _ hs).1]

/-- A call gets the same answer, and is one that both registries have made. -/
theorem call (h : Aside type asked r r') (other : String) :
    (r'.callFor other).answer = (r.callFor other).answer
      ∧ Aside type asked { r with asked := other :: r.asked }
          { r' with asked := other :: r'.asked } := by
  obtain ⟨later, hasked, hasked'⟩ := h.asked
  constructor
  · rw [Call.answer, Call.answer, callFor, callFor, hasked, hasked', h.files]
    exact (h.loader r.files later other).symm
  · refine ⟨h.loader, h.types, h.cache, h.generic_congr rfl rfl, h.files, other :: later, ?_, ?_⟩
    · rw [hasked, List.cons_append]
    · rw [hasked', List.cons_append]

theorem withCache (h : Aside type asked r r') (cache : Recent Entry) :
    Aside type asked { r with cache } { r' with cache } :=
  ⟨h.loader, h.types, rfl, h.generic_congr rfl rfl, h.files, h.asked⟩

theorem lookup (h : Aside type asked r r') (other : String) :
    SameOutcome type asked (r.lookup other) (r'.lookup other) := by
  obtain ⟨hanswer, hcall⟩ := h.call other
  have hcall := hcall.withCache r.cache
  unfold Registry.lookup
  rw [h.cache]
  split
  · exact ⟨rfl, rfl, h.withCache _⟩
  · dsimp only
    rw [hanswer]
    split
    · exact ⟨rfl, rfl, hcall⟩
    · exact ⟨rfl, rfl, hcall⟩
    · split
      · exact ⟨rfl, rfl, hcall⟩
      · exact ⟨rfl, rfl, hcall.withCache _⟩

theorem genericEntry (h : Aside type asked r r') :
    SameOutcome type asked r.genericEntry r'.genericEntry := by
  refine ⟨h.generic, by rw [calls_genericEntry, calls_genericEntry], ?_⟩
  have hagain : r'.genericEntry.registry.genericEntry.result
      = r.genericEntry.registry.genericEntry.result := by
    rw [genericEntry_genericEntry, genericEntry_genericEntry, h.generic]
  rw [registry_genericEntry r, registry_genericEntry r'] at hagain ⊢
  exact ⟨h.loader, h.types, h.cache, hagain, h.files, h.asked⟩

theorem prewarm : ∀ {r r' : Registry} (types : List String), Aside type asked r r' →
    SameOutcome type asked (r.prewarm types) (r'.prewarm types)
  | _, _, [], h => h.answer ()
  | _, _, other :: rest, h => (h.lookup other).andThen fun _ _ _ hnext => prewarm rest hnext

theorem content (h : Aside type asked r r') (other : String) :
    SameOutcome type asked (r.content other) (r'.content other) := by
  unfold Registry.content
  split
  · exact h.genericEntry.map _
  · refine (h.lookup other).andThen ?_
    intro entry r r' hnext
    cases entry with
    | some entry => exact hnext.answer _
    | none => exact hnext.genericEntry.map _

theorem schemaFor (h : Aside type asked r r') (uri language : String) :
    SameOutcome type asked (r.schemaFor uri language) (r'.schemaFor uri language) := by
  unfold Registry.schemaFor
  rw [h.types]
  split
  · exact ⟨rfl, rfl, h⟩
  · exact h.answer none
  · exact (h.lookup _).map _

theorem dropped (h : Aside type asked r r') {loader loader' : Loader}
    (hloader : AnswersWithout type asked loader loader') (types : List String) :
    Aside type asked { r with loader, types, cache := r.cache.clear, generic := none }
      { r' with loader := loader', types, cache := r'.cache.clear, generic := none } :=
  ⟨hloader, rfl, by rw [h.cache], And.left (genericEntry_congr _ _ rfl), h.files, h.asked⟩

theorem withFiles (h : Aside type asked r r') (files : Files) :
    Aside type asked { r with files } { r' with files } :=
  ⟨h.loader, h.types, h.cache, h.generic_congr rfl rfl, rfl, h.asked⟩

end Aside

/-! ## 4. Requests -/

/-- A request with the loader changed that it installs. -/
def Request.mapLoader (f : Loader → Loader) : Request → Request
  | .refresh loader known => .refresh (loader.map f) known
  | request => request

theorem Request.mapLoader_id (request : Request) : request.mapLoader id = request := by
  cases request with
  | refresh loader known => rw [mapLoader, Option.map_id, id]
  | _ => rfl

/-- What can be seen of a served request: the answer or the error, the types that the loader was
asked for, and the entries and the types of the registry afterwards. -/
def Outcome.seen (o : Outcome Reply) :
    Except Failure Reply × List String × Recent Entry × List String :=
  (o.result, o.calls.map (·.type), o.registry.cache, o.registry.types)

theorem SameOutcome.seen {o o' : Outcome Reply} (h : SameOutcome type asked o o') :
    o'.seen = o.seen := by
  rw [Outcome.seen, Outcome.seen, h.result, h.calls, h.registry.cache, h.registry.types]

namespace Aside

/-- **Every request is answered the same, and keeps the registries alike.** -/
theorem serve (h : Aside type asked r r') {f : Loader → Loader} (request : Request)
    (hf : ∀ loader types, request = .refresh (some loader) types →
      AnswersWithout type asked (f loader) loader) :
    SameOutcome type asked (r.serve (request.mapLoader f)) (r'.serve request) := by
  cases request with
  | get other => exact ((h.lookup other).map _).map _
  | document other => exact ((h.lookup other).map _).map _
  | generic => exact h.genericEntry.map _
  | content other => exact (h.content other).map _
  | uri other => exact h.answer _
  | has other =>
    have hhas : r'.has other = r.has other := by rw [Registry.has, Registry.has, h.types, h.cache]
    simp only [Registry.serve, Request.mapLoader, hhas]
    exact h.answer _
  | types =>
    simp only [Registry.serve, Request.mapLoader, h.types]
    exact h.answer _
  | stats =>
    have hstats : r'.stats = r.stats := by rw [Registry.stats, Registry.stats, h.types, h.cache]
    simp only [Registry.serve, Request.mapLoader, hstats]
    exact h.answer _
  | prewarm types => exact (h.prewarm types).map _
  | clear =>
    have hdropped := h.dropped h.loader r.types
    simp only [Registry.serve, Request.mapLoader, Registry.clear, h.types]
    exact hdropped.answer _
  | refresh loader types =>
    have hloader : AnswersWithout type asked ((loader.map f).getD r.loader)
        (loader.getD r'.loader) := by
      cases loader with
      | none => exact h.loader
      | some loader => exact hf loader types rfl
    simp only [Registry.serve, Request.mapLoader, Registry.refresh, h.types]
    exact (h.dropped hloader _).answer _
  | write name text =>
    simp only [Registry.serve, Request.mapLoader, Registry.write, h.files]
    exact (h.withFiles _).answer _
  | delete name =>
    simp only [Registry.serve, Request.mapLoader, Registry.delete, h.files]
    exact (h.withFiles _).answer _
  | complete engine uri language text offset => exact ((h.schemaFor uri language).map _).map _
  | inline engine uri language text offset => exact ((h.schemaFor uri language).map _).map _

/-- **So is every sequence of requests.** -/
theorem serveAll {f : Loader → Loader} : ∀ {r r' : Registry} (requests : List Request),
    Aside type asked r r' →
    (∀ loader known, .refresh (some loader) known ∈ requests →
      AnswersWithout type asked (f loader) loader) →
    (r'.serveAll requests).map Outcome.seen
      = (r.serveAll (requests.map (Request.mapLoader f))).map Outcome.seen
  | _, _, [], _, _ => rfl
  | r, r', request :: rest, h, hf => by
    have hserved := h.serve (f := f) request fun loader known heq =>
      hf loader known (heq ▸ List.mem_cons_self)
    have hrest := serveAll rest hserved.registry fun loader known hmem =>
      hf loader known (List.mem_cons_of_mem _ hmem)
    simp only [Registry.serveAll, List.map_cons, hserved.seen, hrest]

end Aside

end OneCallMore

/-! ## 5. Requests that find nothing -/

/-- The generic document stands in for a type without a document, whose text is asked for. -/
def StandsIn (r : Registry) (request : Request) (type : String) : Prop :=
  request = .content type ∧ (r.lookup type).result = .ok none

section Fruitless

variable {r : Registry} {type : String} {request : Request}

/-- A request whose only lookup is fruitless makes one call. -/
theorem calls_of_fruitless (hwanted : r.wanted request = [type]) (h : r.Fruitless type) :
    (r.serve request).calls = [r.callFor type] := by
  rw [(serve_prewarm r request (by rintro rfl; cases hwanted)
    (by rintro loader known rfl; cases hwanted)).2, hwanted, calls_prewarm_singleton,
    (lookup_of_fruitless h).2]

/-- Behind the text of a type the registry is that of the lookup; if it finds no document, the
generic document has been asked for as well. -/
theorem registry_content (htype : type ≠ genericName) :
    (r.content type).registry = match (r.lookup type).result with
      | .ok none => (r.lookup type).registry.genericEntry.registry
      | _ => (r.lookup type).registry := by
  rw [content, if_neg htype, Outcome.andThen]
  cases (r.lookup type).result with
  | error e => rfl
  | ok entry? => cases entry? <;> rfl

/-- **A request whose only lookup is fruitless leaves the registry as it was**, apart from the call
and unless the generic document stands in. -/
theorem registry_of_fruitless (hwanted : r.wanted request = [type]) (h : r.Fruitless type)
    (hother : ¬ r.StandsIn request type) :
    (r.serve request).registry = { r with asked := type :: r.asked } := by
  have hregistry := (lookup_of_fruitless h).1
  cases request with
  | get other | document other =>
    cases hwanted
    exact hregistry
  | prewarm types =>
    cases hwanted
    exact (registry_prewarm_singleton r type).trans hregistry
  | complete engine uri language | inline engine uri language =>
    have hschema := (schemaFor_prewarm r uri language).1
    rw [wanted] at hwanted
    rw [hwanted, registry_prewarm_singleton, hregistry] at hschema
    exact hschema
  | content other =>
    rw [wanted] at hwanted
    split at hwanted
    · cases hwanted
    · rename_i hgeneric
      cases hwanted
      refine (registry_content hgeneric).trans ?_
      split
      · rename_i hresult
        exact absurd ⟨rfl, hresult⟩ hother
      · exact hregistry
  | generic | uri | has | types | stats | clear | refresh | write | delete => cases hwanted

/-- **Where the generic document stands in, its entry is kept from then on**, and nothing else
changes apart from the call. -/
theorem registry_of_standsIn (hwanted : r.wanted request = [type])
    (h : r.StandsIn request type) : ∃ entry, r.genericEntry.result = .ok entry
      ∧ (r.serve request).registry = { r with asked := type :: r.asked, generic := some entry } := by
  obtain ⟨rfl, hresult⟩ := h
  have hfruitless : r.Fruitless type := by simp [Fruitless, hresult]
  have hgeneric : type ≠ genericName := by
    rintro rfl
    cases hwanted
  obtain ⟨entry, hentry, hkept⟩ := exists_genericEntry r
  obtain ⟨-, hsame⟩ := genericEntry_congr r { r with asked := type :: r.asked } rfl
  refine ⟨entry, hentry, (registry_content hgeneric).trans ?_⟩
  rw [hresult, (lookup_of_fruitless hfruitless).1, registry_genericEntry, hsame, hkept]

/-- The registry afterwards differs from the one before in the call. -/
theorem aside_serve_of_fruitless (hwanted : r.wanted request = [type]) (h : r.Fruitless type)
    {loader : Loader} (hloader : AnswersWithout type r.asked loader r.loader) :
    Aside type r.asked { r with loader } (r.serve request).registry := by
  by_cases hstands : r.StandsIn request type
  · obtain ⟨entry, hentry, hsame⟩ := registry_of_standsIn hwanted hstands
    rw [hsame]
    refine ⟨hloader, rfl, rfl, ?_, rfl, [], rfl, rfl⟩
    rw [(genericEntry_congr r { r with loader } rfl).1, hentry]
    rfl
  · rw [registry_of_fruitless hwanted h hstands]
    exact ⟨hloader, rfl, rfl, And.left (genericEntry_congr _ _ rfl), rfl, [], rfl, rfl⟩

end Fruitless

/-- **A fruitless lookup leaves no trace but the call of the loader**, and the entry of the generic
document where that stands in for a type.  Afterwards every sequence of requests is answered as it
would be without the lookup by a loader that has answered the call, and as without the lookup and
the call by loaders to which the call makes no difference.  A prewarm goes on after a type without a
document, and one that fails leaves the state of the lookups before. -/
theorem fruitless_leaves_no_trace (r : Registry) :
    (∀ request type, r.wanted request = [type] → r.Fruitless type →
      (r.serve request).calls = [r.callFor type]
      ∧ (¬ r.StandsIn request type →
          (r.serve request).registry = { r with asked := type :: r.asked })
      ∧ (r.StandsIn request type → ∃ entry, r.genericEntry.result = .ok entry
          ∧ (r.serve request).registry
            = { r with asked := type :: r.asked, generic := some entry })
      ∧ (∀ requests, ((r.serve request).registry.serveAll requests).map Outcome.seen
          = (serveAll { r with loader := r.loader.afterCall type r.asked }
              (requests.map (Request.mapLoader (Loader.afterCall type r.asked)))).map Outcome.seen)
      ∧ ∀ requests, AnswersWithout type r.asked r.loader r.loader →
        (∀ loader known, .refresh (some loader) known ∈ requests →
          AnswersWithout type r.asked loader loader) →
        ((r.serve request).registry.serveAll requests).map Outcome.seen
          = (r.serveAll requests).map Outcome.seen)
    ∧ (∀ done type rest, (r.prewarm done).result = .ok () →
      ((r.prewarm done).registry.lookup type).result = .ok none →
      let later := { (r.prewarm done).registry with
        asked := type :: (r.prewarm done).registry.asked }
      (r.prewarm (done ++ type :: rest)).result = (prewarm later rest).result
        ∧ (r.prewarm (done ++ type :: rest)).registry = (prewarm later rest).registry)
    ∧ ∀ types e, (r.prewarm types).result = .error e →
      ∃ done type rest, types = done ++ type :: rest ∧ (r.prewarm done).result = .ok ()
        ∧ ((r.prewarm done).registry.lookup type).result = .error e
        ∧ (r.prewarm types).registry
          = { (r.prewarm done).registry with
              asked := type :: (r.prewarm done).registry.asked } := by
  refine ⟨?_, fun done type rest hdone h => prewarm_of_none rest hdone h, ?_⟩
  · intro request type hwanted hfruitless
    refine ⟨calls_of_fruitless hwanted hfruitless, registry_of_fruitless hwanted hfruitless,
      registry_of_standsIn hwanted, ?_, ?_⟩
    · intro requests
      refine Aside.serveAll requests (aside_serve_of_fruitless hwanted hfruitless
        (answersWithout_afterCall type r.asked r.loader)) ?_
      intro loader known _
      exact answersWithout_afterCall type r.asked loader
    · intro requests hloader hinstalled
      have hid : requests.map (Request.mapLoader id) = requests :=
        (List.map_congr_left fun request _ => request.mapLoader_id).trans (List.map_id _)
      have hall := Aside.serveAll (f := id) requests
        (aside_serve_of_fruitless hwanted hfruitless hloader) hinstalled
      rwa [hid] at hall
  · intro types e herror
    obtain ⟨done, type, rest, htypes, hdone, hlast, hregistry⟩ := prewarm_error herror
    have hfruitless : (r.prewarm done).registry.Fruitless type := by simp [Fruitless, hlast]
    refine ⟨done, type, rest, htypes, hdone, hlast, ?_⟩
    rw [hregistry, (lookup_of_fruitless hfruitless).1]

/-- A registry over one schema, with no room for an entry. -/
def roomless : Registry :=
  ofSchemas [("t", .obj [])] 0

theorem lookup_roomless_other : (roomless.lookup "s").result = .ok none := by
  simp [roomless, ofSchemas, lookup, Recent.find?, Members.find?, callFor, Call.answer,
    Loader.ofSchemas, entryOf]

/-- The schema of `t` is found but not kept, and afterwards it is as if it had never been asked for;
the text of `s` is that of the generic document, and its entry is all that is left; a prewarm gets
past `s` and fails at `t`. -/
theorem fruitless_leaves_no_trace_roomless :
    roomless.Fruitless "t"
      ∧ (roomless.serve (.get "t")).registry = { roomless with asked := ["t"] }
      ∧ ((roomless.serve (.get "t")).registry.serveAll [.has "t", .content "t"]).map Outcome.seen
        = (roomless.serveAll [.has "t", .content "t"]).map Outcome.seen
      ∧ roomless.StandsIn (.content "s") "s"
      ∧ (∃ entry, (roomless.serve (.content "s")).registry
        = { roomless with asked := ["s"], generic := some entry })
      ∧ (roomless.prewarm ["s", "t"]).result = .error .noRoom
      ∧ (roomless.prewarm ["s", "t"]).registry
        = (prewarm { roomless with asked := ["s"] } ["t"]).registry
      ∧ ∃ done type rest, ["s", "t"] = done ++ type :: rest
        ∧ (roomless.prewarm ["s", "t"]).registry = { (roomless.prewarm done).registry with
            asked := type :: (roomless.prewarm done).registry.asked } := by
  have hfruitless : roomless.Fruitless "t" := fruitless_iff.mpr ⟨rfl, fun _ _ => rfl⟩
  have hother : ¬ roomless.StandsIn (.get "t") "t" := fun h => Request.noConfusion h.1
  have hstands : roomless.StandsIn (.content "s") "s" := ⟨rfl, lookup_roomless_other⟩
  have hnone : roomless.Fruitless "s" := by simp [Fruitless, lookup_roomless_other]
  have herror : (roomless.prewarm ["s", "t"]).result = .error .noRoom := by
    simp [prewarm, Outcome.andThen, roomless, ofSchemas, lookup, Recent.find?, Recent.insert?,
      Members.find?, callFor, Call.answer, Loader.ofSchemas, documentOf, entryOf, build_empty, fail]
  obtain ⟨hserved, hnext, hprewarm⟩ := fruitless_leaves_no_trace roomless
  obtain ⟨-, hget, -, -, hcontinued⟩ := hserved (.get "t") "t" rfl hfruitless
  obtain ⟨-, -, hcontent, -⟩ := hserved (.content "s") "s" rfl hnone
  refine ⟨hfruitless, hget hother, ?_, hstands, ?_, herror, ?_, ?_⟩
  · refine hcontinued _ (fun _ _ _ => rfl) ?_
    simp
  · obtain ⟨entry, -, hregistry⟩ := hcontent hstands
    exact ⟨entry, hregistry⟩
  · exact (hnext [] "s" ["t"] rfl lookup_roomless_other).2
  · obtain ⟨done, type, rest, htypes, -, -, hregistry⟩ := hprewarm _ _ herror
    exact ⟨done, type, rest, htypes, hregistry⟩

/-- The generic entry does not stay as it was: the text of a type without a document is asked for,
the only lookup finds nothing, and an entry is kept where there was none. -/
theorem generic_kept_after_content :
    let r := ofSchemas [] 1
    r.wanted (.content "t") = ["t"] ∧ r.Fruitless "t" ∧ r.generic = none
      ∧ (r.serve (.content "t")).registry.generic ≠ none := by
  intro r
  have hnone : (r.lookup "t").result = .ok none := by
    simp [r, ofSchemas, lookup, Recent.find?, Members.find?, callFor, Call.answer,
      Loader.ofSchemas, entryOf]
  have hfruitless : r.Fruitless "t" := by simp [Fruitless, hnone]
  obtain ⟨entry, -, hregistry⟩ := registry_of_standsIn (r := r) rfl ⟨rfl, hnone⟩
  refine ⟨rfl, hfruitless, rfl, ?_⟩
  rw [hregistry]
  exact Option.some_ne_none entry

end SchemaAssist.Registry
