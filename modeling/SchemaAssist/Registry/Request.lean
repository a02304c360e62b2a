/-
# Requests to a registry

What a registry is asked in the course of its life, as a type: lookups, questions that change
nothing, changes, and requests on behalf of documents that are edited.  `Registry.serve` answers one
request, `Registry.serveAll` a sequence of them; an error ends the request and not the sequence.
-/
import SchemaAssist.Registry.Basic

namespace SchemaAssist.Registry

open SchemaAssist.Completion SchemaAssist.Json SchemaAssist.Resource SchemaAssist.Schema

/-! ## 1. The types -/

/-- A request to a registry. -/
inductive Request where
  | get (type : String)
  | document (type : String)
  /-- The tree of the document that fits any type. -/
  | generic
  /-- The published text of the document of a type. -/
  | content (type : String)
  /-- The identifier of the document of a type. -/
  | uri (type : String)
  /-- Whether a type is known or kept. -/
  | has (type : String)
  | types
  | stats
  | prewarm (types : List String)
  | clear
  /-- Drops the entries that are kept, and changes the loader and the known types where given. -/
  | refresh (loader : Option Loader) (types : Option (List String))
  | write (name text : String)
  | delete (name : String)
  | complete (engine : Engine) (uri language : String) (text : List Char) (offset : Int)
  | inline (engine : Engine) (uri language : String) (text : List Char) (offset : Int)

/-- The answer to a request. -/
inductive Reply where
  | node (n : Option Node)
  | document (v : Option Value)
  | text (s : String)
  | flag (b : Bool)
  | names (types : List String)
  | stats (s : Stats)
  | done
  | items (items : List Item)
  | suggestion (s : Option String)

/-! ## 2. Serving -/

/-- Serves one request. -/
def serve (r : Registry) : Request → Outcome Reply
  | .get type => (r.get type).map .node
  | .document type => (r.document type).map .document
  | .generic => r.genericEntry.map fun entry => .node (some entry.root)
  | .content type => (r.content type).map .text
  | .uri type => r.answer (.text (schemaUri type))
  | .has type => r.answer (.flag (r.has type))
  | .types => r.answer (.names r.types)
  | .stats => r.answer (.stats r.stats)
  | .prewarm types => (r.prewarm types).map fun _ => .done
  | .clear => r.clear.answer .done
  | .refresh loader types => (r.refresh loader types).answer .done
  | .write name text => (r.write name text).answer .done
  | .delete name => (r.delete name).answer .done
  | .complete engine uri language text offset =>
    (r.complete engine uri language text offset).map .items
  | .inline engine uri language text offset =>
    (r.inline engine uri language text offset).map .suggestion

/-- Serves a sequence of requests, each with the registry that the one before it left. -/
def serveAll (r : Registry) : List Request → List (Outcome Reply)
  | [] => []
  | request :: rest =>
    let o := r.serve request
    o :: serveAll o.registry rest

end SchemaAssist.Registry
