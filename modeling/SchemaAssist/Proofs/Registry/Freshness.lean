/-
# What is served is what the loader answers

The entries that a registry keeps go back to calls of its loader.  Whatever was looked up, pushed
out or dropped before, an entry that a lookup finds holds the document that the loader gave at its
most recent call for the type; that call was made since the entries were dropped, and by the loader
that is installed now; and the tree is built from that document (`Backed`, `backed_of_reaches`).

So a registry whose loader always answers a type in the same way serves as if it kept nothing: the
result of a lookup is that of the answer (`lookup_of_constant`).
-/
import SchemaAssist.Proofs.Registry.History
import SchemaAssist.Proofs.Registry.Lookup

namespace SchemaAssist.Registry

open SchemaAssist.Completion SchemaAssist.Json SchemaAssist.Resource SchemaAssist.Schema

/-! ## 1. The most recent call -/

/-- The most recent call of a loader for a type in a history. -/
def lastCall (type : String) (h : List Event) : Option Call :=
  ((callsOf h).filter (·.type == type)).getLast?

theorem lastCall_append (type : String) (h h' : List Event) :
    lastCall type (h ++ h') = (lastCall type h').or (lastCall type h) := by
  rw [lastCall, callsOf_append, List.filter_append, List.getLast?_append, lastCall, lastCall]

/-- The most recent call is a call for the type. -/
theorem type_of_lastCall {type : String} {h : List Event} {call : Call}
    (hcall : lastCall type h = some call) : call.type = type := by
  have := List.mem_of_getLast? hcall
  simpa using (List.mem_filter.mp this).2

/-- What is the most recent call since the entries were dropped is so in the whole history. -/
theorem lastCall_of_sinceReset {type : String} {h : List Event} {call : Call}
    (hcall : lastCall type (sinceReset h) = some call) : lastCall type h = some call := by
  obtain ⟨before, hb⟩ := exists_append_sinceReset h
  rw [hb, lastCall_append, hcall]
  rfl

/-! ## 2. Entries go back to calls -/

/-- An entry of a type holds what the loader answered at its most recent call for the type, since
the entries were dropped. -/
structure FromCall (loader : Loader) (h : List Event) (type : String) (entry : Entry) : Prop where
  root : Schema.build entry.document = .ok entry.root
  call : ∃ call, lastCall type (sinceReset h) = some call ∧ call.loader = loader
    ∧ call.answer = .ok (some entry.document)

/-- All entries of a registry go back to calls of its loader. -/
structure Backed (first : Loader) (h : List Event) (r : Registry) : Prop where
  loader : r.loader = installed first h
  room : 1 ≤ r.cache.capacity
  entries : ∀ type entry, r.cache.find? type = some entry → FromCall r.loader h type entry

/-- A lookup without calls leaves the most recent calls as they are. -/
theorem FromCall.lookup_of_calls {loader : Loader} {h : List Event} {type : String} {entry : Entry}
    (hf : FromCall loader h type entry) {l : Lookup} (hl : ∀ call ∈ l.calls, call.type ≠ type) :
    FromCall loader (h ++ [.lookup l]) type entry := by
  obtain ⟨call, hcall, hloader, hanswer⟩ := hf.call
  refine ⟨hf.root, call, ?_, hloader, hanswer⟩
  have hnone : lastCall type [.lookup l] = none := by
    have : l.calls.filter (·.type == type) = [] := by simpa using hl
    simp [lastCall, callsOf_lookup, this]
  rw [sinceReset_lookup, lastCall_append, hnone, hcall]
  rfl

/-- The entry that a call leads to goes back to that call. -/
theorem fromCall_callFor {r : Registry} {h : List Event} {type : String} {entry : Entry}
    (hentry : entryOf (r.callFor type).answer = .ok (some entry)) {l : Lookup}
    (hl : l.calls = [r.callFor type]) : FromCall r.loader (h ++ [.lookup l]) type entry := by
  obtain ⟨hanswer, hroot⟩ := answer_of_entryOf hentry
  refine ⟨hroot, r.callFor type, ?_, rfl, hanswer⟩
  have hlast : lastCall type [.lookup l] = some (r.callFor type) := by
    simp [lastCall, callsOf_lookup, hl, callFor]
  rw [sinceReset_lookup, lastCall_append, hlast]
  rfl

namespace Backed

variable {first : Loader} {h : List Event} {r : Registry}

/-- **What a lookup finds goes back to a call**, be it kept or new. -/
theorem fromCall (hb : Backed first h r) {type : String} {entry : Entry}
    (hfound : (r.lookup type).result = .ok (some entry)) :
    FromCall r.loader (h ++ [.lookup (r.look type)]) type entry := by
  rcases r.lookup_cases type hb.room with
    ⟨kept, hfind, hlookup⟩ | ⟨result, -, -, hnone, hlookup⟩ | ⟨new, cache, -, hentry, -, hlookup⟩
  · rw [hlookup] at hfound
    simp only [Except.ok.injEq, Option.some.injEq] at hfound
    subst hfound
    exact (hb.entries type kept hfind).lookup_of_calls (by simp [look, hlookup])
  · rw [hlookup] at hfound
    exact absurd hfound (hnone entry)
  · rw [hlookup] at hfound
    simp only [Except.ok.injEq, Option.some.injEq] at hfound
    subst hfound
    exact fromCall_callFor hentry (by simp [look, hlookup])

/-- A lookup keeps what goes back to calls. -/
theorem lookup (hb : Backed first h r) (type : String) :
    Backed first (h ++ [.lookup (r.look type)]) (r.lookup type).registry := by
  rcases r.lookup_cases type hb.room with
    ⟨kept, hfind, hlookup⟩ | ⟨result, hfind, -, -, hlookup⟩
      | ⟨new, cache, hfind, hentry, hinsert, hlookup⟩
  · -- The entry is kept, and no entry changes.
    rw [hlookup]
    refine ⟨by rw [installed_lookup]; exact hb.loader, ?_, ?_⟩
    · simpa [Recent.capacity_use] using hb.room
    · intro other entry hother
      have hother : r.cache.find? other = some entry := by rwa [← Recent.find?_use type other]
      exact (hb.entries other entry hother).lookup_of_calls (by simp [look, hlookup])
  · -- The call led to no entry; there was none of the type, so the others go back to other calls.
    rw [hlookup]
    refine ⟨by rw [installed_lookup]; exact hb.loader, hb.room, ?_⟩
    intro other entry hother
    have hne : type ≠ other := by
      rintro rfl
      rw [hfind] at hother
      simp at hother
    exact (hb.entries other entry hother).lookup_of_calls (by simp [look, hlookup, callFor, hne])
  · -- The new entry goes back to the new call, the others to the calls of before.
    rw [hlookup]
    refine ⟨by rw [installed_lookup]; exact hb.loader, ?_, ?_⟩
    · simpa [Recent.capacity_insert? hinsert] using hb.room
    · intro other entry hother
      by_cases hne : other = type
      · subst hne
        have hnew : some entry = some new := by
          rw [← Recent.find?_of_insert? hinsert]
          exact hother.symm
        rw [Option.some.inj hnew]
        exact fromCall_callFor hentry (by simp [look, hlookup])
      · have hkept := Recent.find?_of_insert?_ne hne hinsert hother
        have hcalls : ∀ call ∈ (r.look type).calls, call.type ≠ other := by
          simpa [look, hlookup, callFor] using Ne.symm hne
        exact (hb.entries other entry hkept).lookup_of_calls hcalls

/-- Dropping the entries keeps nothing that could go wrong. -/
theorem reset (hb : Backed first h r) (loader : Option Loader) (types : Option (List String)) :
    Backed first (h ++ [.reset loader]) (r.refresh loader types) := by
  refine ⟨?_, hb.room, ?_⟩
  · rw [installed_reset, ← hb.loader]
    rfl
  · intro type entry hfind
    simp [refresh, Recent.clear, Recent.find?] at hfind

end Backed

/-- **In every registry that is reached the entries go back to calls of its loader.** -/
theorem backed_of_reaches {r₀ r : Registry} {h : List Event} (hfresh : r₀.cache.entries = [])
    (hroom : 1 ≤ r₀.cache.capacity) (hr : Reaches r₀ h r) : Backed r₀.loader h r := by
  induction hr with
  | start => exact ⟨rfl, hroom, by simp [Recent.find?, hfresh]⟩
  | lookup type _ ih => exact ih.lookup type
  | reset loader types _ ih => exact ih.reset loader types
  | other _ hsame ih =>
    refine ⟨hsame.loader.trans ih.loader, by rw [hsame.cache]; exact ih.room, ?_⟩
    intro type entry hfind
    rw [hsame.cache] at hfind
    rw [hsame.loader]
    exact ih.entries type entry hfind

/-! ## 3. Loaders that answer a type in one way -/

/-- Where the loader answers each type in one way, a lookup has the result of that answer. -/
theorem lookup_of_constant {first : Loader} {h : List Event} {r : Registry} (hb : Backed first h r)
    {f : String → LoadResult} (hf : ∀ files asked type, r.loader files asked type = f type)
    (type : String) : (r.lookup type).result = entryOf (f type) := by
  have hanswer : (r.callFor type).answer = f type := hf _ _ _
  rcases r.lookup_cases type hb.room with
    ⟨kept, hfind, hlookup⟩ | ⟨result, -, hresult, -, hlookup⟩ | ⟨new, cache, -, hentry, -, hlookup⟩
  · obtain ⟨hroot, call, hcall, hloader, hkept⟩ := hb.entries type kept hfind
    have hdocument : f type = .ok (some kept.document) := by
      rw [← hkept, Call.answer, hloader, hf, type_of_lastCall hcall]
    rw [hlookup, hdocument, entryOf_of_build hroot]
  · rw [hlookup, ← hresult, hanswer]
  · rw [hlookup, ← hanswer, hentry]

/-- What becomes of the answer of a loader where nothing is kept: its tree, none, or the error of
loading or of building it. -/
def treeOf : LoadResult → Except Failure (Option Node)
  | .error e => .error (.load e)
  | .ok none => .ok none
  | .ok (some document) =>
    match Schema.build document with
    | .ok root => .ok (some root)
    | .error e => .error (.build e)

theorem map_root_entryOf (a : LoadResult) :
    ((entryOf a).map fun entry => entry.map (·.root)) = treeOf a := by
  match a with
  | .error _ => rfl
  | .ok none => rfl
  | .ok (some document) =>
    cases h : Schema.build document <;> simp [entryOf, treeOf, h, Except.map]

/-- The document of an entry is the answer itself, where a tree can be built from it. -/
theorem map_document_entryOf (a : LoadResult) :
    ((entryOf a).map fun entry => entry.map (·.document))
      = (treeOf a).bind fun _ => a.mapError .load := by
  match a with
  | .error _ => rfl
  | .ok none => rfl
  | .ok (some document) =>
    cases h : Schema.build document <;> simp [entryOf, treeOf, h, Except.map, Except.bind,
      Except.mapError]

section Constant

variable {first : Loader} {h : List Event} {r : Registry} {f : String → LoadResult}

theorem get_of_constant (hb : Backed first h r)
    (hf : ∀ files asked type, r.loader files asked type = f type) (type : String) :
    (r.get type).result = treeOf (f type) := by
  rw [← map_root_entryOf, ← lookup_of_constant hb hf type]
  rfl

theorem document_of_constant (hb : Backed first h r)
    (hf : ∀ files asked type, r.loader files asked type = f type) (type : String) :
    (r.document type).result = (treeOf (f type)).bind fun _ => (f type).mapError .load := by
  rw [← map_document_entryOf, ← lookup_of_constant hb hf type]
  rfl

/-- The tree for a document that is edited. -/
theorem schemaFor_of_constant (hb : Backed first h r)
    (hf : ∀ files asked type, r.loader files asked type = f type) (uri language : String) :
    (r.schemaFor uri language).result =
      match typeFor r.types uri language with
      | .error e => .error (.uri e)
      | .ok none => .ok none
      | .ok (some type) => treeOf (f type) := by
  rcases htype : typeFor r.types uri language with e | (_ | type)
  · simp [schemaFor, htype, fail]
  · simp [schemaFor, htype, answer]
  · simp only [schemaFor, htype]
    exact get_of_constant hb hf type

end Constant

/-! ## 4. Whole runs -/

/-- **The registry serves what its loader answers.**  In any run of requests, a lookup that finds an
entry finds the document that the loader gave at its most recent call for the type, with the tree
that is built from it; that call was made since the entries were dropped, by the loader that was
installed last.  So a loader that answers each type in one way, as `f` says, is served as if nothing
were kept: `get` gives the tree of the answer, `document` the answer itself unless no tree can be
built from it, and edited documents are completed with that tree. -/
theorem serves_answers (r : Registry) (hfresh : r.cache.entries = [])
    (hroom : 1 ≤ r.cache.capacity) (requests : List Request) :
    (∀ before l rest entry, history r requests = before ++ .lookup l :: rest →
      l.result = .ok (some entry) →
      Schema.build entry.document = .ok entry.root
        ∧ ∃ call, lastCall l.type (before ++ [.lookup l]) = some call
          ∧ lastCall l.type (sinceReset (before ++ [.lookup l])) = some call
          ∧ call.loader = installed r.loader before
          ∧ call.answer = .ok (some entry.document))
      ∧ ∀ f : String → LoadResult,
        (∀ files asked type, (after r requests).loader files asked type = f type) →
        (∀ type, ((after r requests).get type).result = treeOf (f type)
          ∧ ((after r requests).document type).result
            = (treeOf (f type)).bind fun _ => (f type).mapError .load)
        ∧ ∀ engine uri language text offset,
          let root? : Except Failure (Option Node) :=
            match typeFor (after r requests).types uri language with
            | .error e => .error (.uri e)
            | .ok none => .ok none
            | .ok (some type) => treeOf (f type)
          ((after r requests).complete engine uri language text offset).result
              = root?.map (fun root =>
                match root with
                | some n => engine.items n text offset
                | none => [])
            ∧ ((after r requests).inline engine uri language text offset).result
              = root?.map fun root => root.bind fun n => engine.inline n text offset := by
  have hreaches := reaches_after r requests
  have hbacked := backed_of_reaches hfresh hroom hreaches
  constructor
  · intro before l rest entry hsplit hfound
    obtain ⟨r', hr', hl⟩ := hreaches.split hsplit
    have hb := backed_of_reaches hfresh hroom hr'
    have hresult : (r'.lookup l.type).result = .ok (some entry) := by
      rw [← hfound, hl]
      rfl
    have hcall := hb.fromCall hresult
    rw [← hl] at hcall
    obtain ⟨hroot, call, hlast, hloader, hanswer⟩ := hcall
    exact ⟨hroot, call, lastCall_of_sinceReset hlast, hlast, hloader.trans hb.loader, hanswer⟩
  · intro f hf
    constructor
    · intro type
      exact ⟨get_of_constant hbacked hf type, document_of_constant hbacked hf type⟩
    · intro engine uri language text offset
      have hroot := schemaFor_of_constant hbacked hf uri language
      constructor
      · exact congrArg (Except.map _) hroot
      · exact congrArg (Except.map _) hroot

/-- A registry over one document. -/
def sample : Registry :=
  ofSchemas [("t", .obj [])] 1

theorem serves_answers_sample :
    (∃ call, lastCall "t" (history sample [.get "t"]) = some call
        ∧ call.answer = .ok (some (.obj [])))
      ∧ ((after sample [.get "t", .clear]).get "t").result
        = .ok (some (.scalar { types := ["string"] })) := by
  have hfind : sample.cache.find? "t" = none := rfl
  have hentry : entryOf (sample.callFor "t").answer
      = .ok (some { document := .obj [], root := .scalar { types := ["string"] } }) :=
    entryOf_of_build build_empty
  have hinsert (entry : Entry) : sample.cache.insert? "t" entry
      = some { capacity := 1, entries := [("t", entry)] } := rfl
  have hfound : (sample.look "t").result
      = .ok (some { document := .obj [], root := .scalar { types := ["string"] } }) := by
    simp [look, lookup, hfind, hentry, hinsert]
  have hhistory : history sample [.get "t"] = [] ++ .lookup (sample.look "t") :: [] := by
    simp [history, events, wanted, looks_singleton]
  constructor
  · obtain ⟨-, call, hlast, -, -, hanswer⟩ :=
      (serves_answers sample rfl (by decide) _).1 [] _ [] _ hhistory hfound
    exact ⟨call, by rw [hhistory]; exact hlast, hanswer⟩
  · have hloader : (after sample [.get "t", .clear]).loader = sample.loader := by
      simp [after, serve, get, Outcome.map, lookup, hfind, hentry, hinsert, clear, answer]
    have hget := ((serves_answers sample rfl (by decide) [.get "t", .clear]).2
      (sample.loader [] []) (fun _ _ _ => by rw [hloader]; rfl)).1 "t"
    have hanswer : sample.loader [] [] "t" = .ok (some (.obj [])) := rfl
    rw [hget.1, hanswer, treeOf, build_empty]

/-- A document whose required names cannot be read. -/
def unreadable : Value :=
  .obj [("properties", .obj []), ("required", .bool true)]

theorem build_unreadable : Schema.build unreadable = .error .unreadableRequired := by
  simp [build, unreadable, hasReadableRequired, describesObject, requiredNames?, Members.find?,
    Value.optionalElements?, Value.isTruthy, Value.elements?]

/-- A loader that answers each type in one way; still a document from which no tree can be built is
not given out. -/
theorem document_of_unreadable :
    ∃ f : String → LoadResult,
      (∀ files asked type, (ofSchemas [("t", unreadable)] 1).loader files asked type = f type)
        ∧ f "t" = .ok (some unreadable)
        ∧ ((ofSchemas [("t", unreadable)] 1).document "t").result
          = .error (.build .unreadableRequired) := by
  refine ⟨fun type => .ok ((Members.find? type [("t", unreadable)]).bind documentOf),
    fun _ _ _ => rfl, rfl, ?_⟩
  have hfind : (ofSchemas [("t", unreadable)] 1).cache.find? "t" = none := rfl
  have hanswer : ((ofSchemas [("t", unreadable)] 1).callFor "t").answer = .ok (some unreadable) :=
    rfl
  have hentry : entryOf (.ok (some unreadable)) = .error (.build .unreadableRequired) := by
    simp [entryOf, build_unreadable]
  simp [document, lookup, hfind, hanswer, hentry, fail, Outcome.map, Except.map]

end SchemaAssist.Registry
