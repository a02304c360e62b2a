/-
# Suggestions at a cut of a document

What a schema tree suggests at a cursor between the tokens of a document, in the terms of the
grammar:

* where the value of a member goes, the value items of the node at the path of that value, and the
  inline text of that node as long as the cursor is on the line of the colon;
* where a member goes or ended, the property items of the node at the path of the object, and no
  inline text.

`suggestions_at_cut` has both.
-/
import SchemaAssist.Completion.Suggest
import SchemaAssist.Proofs.Cursor.Context

namespace SchemaAssist.Completion

open SchemaAssist.Cursor SchemaAssist.Json SchemaAssist.Schema SchemaAssist.Text

/-! ## 1. Lines that invite a value -/

/-- What follows a colon and holds none follows the last colon. -/
theorem afterLastColon_append (front : List Char) {rest : List Char} (h : ':' ∉ rest) :
    afterLastColon (front ++ ':' :: rest) = rest := by
  have hne : ∀ c ∈ rest.reverse, (c != ':') = true := by
    intro c hc
    rw [bne_iff_ne]
    rintro rfl
    exact h (List.mem_reverse.mp hc)
  rw [afterLastColon, List.reverse_append, List.reverse_cons, List.append_assoc,
    List.takeWhile_append_of_pos hne]
  simp

/-- A colon and blanks on one line invite a value. -/
theorem invitesValue_of_colon (front : List Char) {blanks : List Char}
    (h : ∀ c ∈ blanks, isBlank c = true) : invitesValue (front ++ ':' :: blanks) = true := by
  have hblank : allBlank blanks = true := List.all_eq_true.mpr h
  rw [invitesValue, afterLastColon_append front (colon_not_mem_of_isBlank h), hblank, isAfterColon,
    endsInColon_of_colon front h, Bool.true_or, Bool.and_self]

/-- After a colon and blanks, the line invites a value if it is the line of the colon. -/
theorem invitesValue_afterColon (before : List Char) {gap : List Char}
    (h : ∀ c ∈ gap, isJsonBlank c = true) :
    invitesValue (afterLastLineFeed (before ++ ':' :: gap)) = !decide ('\n' ∈ gap) := by
  by_cases hfeed : '\n' ∈ gap
  · have hline : ':' ∉ afterLastLineFeed (before ++ ':' :: gap) := by
      have hassoc : before ++ ':' :: gap = (before ++ [':']) ++ gap := by simp
      rw [hassoc, afterLastLineFeed_append_of_mem _ hfeed]
      intro hmem
      exact absurd (h ':' (mem_of_mem_afterLastLineFeed hmem)) (by decide)
    simp [invitesValue, not_isAfterColon_of_not_mem hline, hfeed]
  · have hline : '\n' ∉ ':' :: gap := by simp [hfeed]
    rw [afterLastLineFeed_append_of_not_mem _ hline, invitesValue_of_colon _ (forall_isBlank h)]
    simp [hfeed]

/-- No line invites a value unless the text up to its end is in value position. -/
theorem not_invitesValue_of_not_isAfterColon {text : List Char} (h : isAfterColon text = false) :
    invitesValue (afterLastLineFeed text) = false := by
  obtain ⟨before, htext⟩ := exists_append_afterLastLineFeed text
  have hline : isAfterColon (afterLastLineFeed text) = false := by
    by_contra hline
    have := isAfterColon_append (Bool.not_eq_false _ ▸ hline) before
    rw [← htext, h] at this
    exact absurd this (by decide)
  rw [invitesValue, hline, Bool.false_and]

/-! ## 2. Suggestions -/

section Cuts

variable (e : Engine) (root : Node) {d : Document} {n : Nat}

/-- The items where the value of a member goes. -/
theorem items_at_value (h : Plain e.config d) (hn : n ≤ d.text.length)
    (hspot : (d.placeAt n).spot = .value) :
    e.items root d.text (toOffset e.config.encoding d.text n)
      = match root.navigate? (d.placeAt n).path with
        | some node =>
          e.valueItems node (String.ofList (leadingIndent (currentLine d.text n)))
        | none => [] := by
  obtain ⟨hroot, hafter, hpath⟩ := valuePath_at_value h hn hspot
  rw [Engine.items, Engine.itemsFor, hroot, hafter, hpath, indent_ofOffset hn]
  cases hnode : root.navigate? (d.placeAt n).path with
  | none => simp [hnode]
  | some node => simp [hnode]

/-- The items where a member goes or ended. -/
theorem items_at_member (h : Plain e.config d) (hn : n ≤ d.text.length)
    (hspot : (d.placeAt n).spot = .member) :
    e.items root d.text (toOffset e.config.encoding d.text n)
      = let indent := String.ofList (leadingIndent (currentLine d.text n))
        let path := pathOf (d.placeAt n).levels.tail
        if path = [] then e.rootItems root indent
        else
          match root.navigate? path with
          | some node => e.propertyItems node indent
          | none => [] := by
  obtain ⟨hafter, hobject, hpath⟩ := path_at_member h hn hspot
  rw [Engine.items, Engine.itemsFor, Context.isRoot, hafter, hobject, hpath, indent_ofOffset hn]
  cases hnode : root.navigate? (pathOf (d.placeAt n).levels.tail) with
  | none => simp [hnode]
  | some node => simp [hnode]

/-- The inline text where the value of a member goes, as far as the line of its colon. -/
theorem inline_at_value (h : Plain e.config d) (hn : n ≤ d.text.length)
    (hspot : (d.placeAt n).spot = .value) {before gap : List Char}
    (htext : d.text.take n = before ++ ':' :: gap) (hgap : ∀ c ∈ gap, isJsonBlank c = true) :
    e.inline root d.text (toOffset e.config.encoding d.text n)
      = if '\n' ∈ gap then none
        else (root.navigate? (d.placeAt n).path).bind fun node =>
          inlineText e.config node.hints := by
  obtain ⟨-, -, hpath⟩ := valuePath_at_value h hn hspot
  rw [Engine.inline, toIndex_toOffset _ hn, hpath, invitesValueAt, htext,
    invitesValue_afterColon before hgap]
  by_cases hfeed : '\n' ∈ gap <;> simp [hfeed]

/-- Where a member goes or ended there is no inline text. -/
theorem inline_at_member (h : Plain e.config d) (hn : n ≤ d.text.length)
    (hspot : (d.placeAt n).spot = .member) :
    e.inline root d.text (toOffset e.config.encoding d.text n) = none := by
  have hrests := ((h.positioned hn).member hspot).2
  rw [Engine.inline, toIndex_toOffset _ hn, invitesValueAt,
    not_invitesValue_of_not_isAfterColon hrests.not_isAfterColon]
  rfl

/-- **Between the tokens of a document the engine suggests what belongs there.**  Where the value of
a member goes, these are the value items and, on the line of the colon, the inline text of the node
at the path of that value.  Where a member goes or ended, these are the property items of the node
at the path of the object, or the root items in the outermost object, and no inline text. -/
theorem suggestions_at_cut
    (hlabels : ∀ l ∈ d.labels, l.key.text ≠ [] ∧ l.mid.chars.length < e.config.keyLookahead)
    (hquotations : ∀ q ∈ d.quotations, endsInColonAndSpaces q.source = false)
    (hn : n ≤ d.text.length) :
    let offset := toOffset e.config.encoding d.text n
    let indent := String.ofList (leadingIndent (currentLine d.text n))
    ((d.placeAt n).spot = .value →
      let node? := root.navigate? (d.placeAt n).path
      (e.items root d.text offset
          = match node? with
            | some node => e.valueItems node indent
            | none => [])
        ∧ ∃ before gap, d.text.take n = before ++ ':' :: gap
          ∧ (∀ c ∈ gap, isJsonBlank c = true)
          ∧ e.inline root d.text offset
            = if '\n' ∈ gap then none else node?.bind fun node => inlineText e.config node.hints)
      ∧ ((d.placeAt n).spot = .member →
        let path := pathOf (d.placeAt n).levels.tail
        e.inline root d.text offset = none
          ∧ e.items root d.text offset
            = if path = [] then e.rootItems root indent
              else
                match root.navigate? path with
                | some node => e.propertyItems node indent
                | none => []) := by
  have h : Plain e.config d := ⟨hlabels, hquotations⟩
  refine ⟨fun hspot => ⟨items_at_value e root h hn hspot, ?_⟩, fun hspot =>
    ⟨inline_at_member e root h hn hspot, items_at_member e root h hn hspot⟩⟩
  obtain ⟨key, levels, -, hawaits⟩ := (h.positioned hn).value hspot
  obtain ⟨before, gap, htext, hgap⟩ := hawaits.exists_colon
  exact ⟨before, gap, htext, hgap, inline_at_value e root h hn hspot htext hgap⟩

end Cuts

/-- A schema with an enum for the `k` of `Document.sample`. -/
def sampleLeaf : Node :=
  .scalar { types := ["boolean"], enum := some [.bool true, .bool false] }

/-- A schema for the objects in `Document.sample`. -/
def sampleElement : Node :=
  .object { types := ["object"] } [("k", sampleLeaf)] []

/-- A schema for `Document.sample`. -/
def sampleRoot : Node :=
  .object { types := ["object"] } [("a\n", .array { types := ["array"] } (some sampleElement))] []

/-- In `{ "\u0061\n" :[1 , {"k": "v"}] }`, before the `v` and after it. -/
theorem suggestions_at_cut_sample :
    (∀ l ∈ Document.sample.labels, l.key.text ≠ [] ∧ l.mid.chars.length < 10)
      ∧ (∀ q ∈ Document.sample.quotations, endsInColonAndSpaces q.source = false)
      ∧ (Document.sample.placeAt 25).spot = .value
      ∧ Engine.items {} sampleRoot Document.sample.text 25 = Engine.valueItems {} sampleLeaf ""
      ∧ Engine.inline {} sampleRoot Document.sample.text 25 = some "false"
      ∧ (Document.sample.placeAt 28).spot = .member
      ∧ Engine.items {} sampleRoot Document.sample.text 28
        = Engine.propertyItems {} sampleElement ""
      ∧ Engine.inline {} sampleRoot Document.sample.text 28 = none := by
  have hl : ∀ l ∈ Document.sample.labels, l.key.text ≠ [] ∧ l.mid.chars.length < 10 := by decide
  have hq : ∀ q ∈ Document.sample.quotations, endsInColonAndSpaces q.source = false := by decide
  have hvalue := (suggestions_at_cut {} sampleRoot hl hq (n := 25) (by decide)).1 (by decide)
  have hmember := (suggestions_at_cut {} sampleRoot hl hq (n := 28) (by decide)).2 (by decide)
  obtain ⟨hitems, before, gap, htext, -, hinline⟩ := hvalue
  have hfeed : '\n' ∉ gap := by
    intro h
    have : '\n' ∈ Document.sample.text.take 25 := by rw [htext]; simp [h]
    exact absurd this (by decide)
  have hleaf : inlineText {} sampleLeaf.hints = some "false" := by decide +kernel
  have hpath : sampleRoot.navigate? (Document.sample.placeAt 25).path = some sampleLeaf := rfl
  rw [if_neg hfeed, hpath, Option.bind_some, hleaf] at hinline
  exact ⟨hl, hq, by decide, hitems, hinline, by decide, hmember.2, hmember.1⟩

end SchemaAssist.Completion
