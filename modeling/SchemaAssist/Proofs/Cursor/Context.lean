/-
# The context at a cut of a document

What the context says of a cursor between the tokens of a document, in the terms of the grammar:

* where the value of a member goes, the value path is the path of the place (`valuePath_at_value`);
* where a member goes or ended, the path is that of the object itself, without the key of a member
  (`path_at_member`).

The four analyses behind the context meet here: the walk for the path, the scan for the containers,
and the two that look at the end of the text.
-/
import SchemaAssist.Cursor.Context
import SchemaAssist.Proofs.Cursor.Containers
import SchemaAssist.Proofs.Cursor.KeyPath
import SchemaAssist.Proofs.Cursor.ValuePosition
import SchemaAssist.Proofs.Text.Line
import SchemaAssist.Proofs.Text.Offset

namespace SchemaAssist.Cursor

open SchemaAssist.Json SchemaAssist.Text

/-! ## 1. What is asked of a document -/

/-- Keys are not empty, their colons lie within the window, and no literal ends with a colon and
spaces. -/
structure Plain (config : Config) (d : Document) : Prop where
  labels : ∀ l ∈ d.labels, l.key.text ≠ [] ∧ l.mid.chars.length < config.keyLookahead
  quotations : ∀ q ∈ d.quotations, endsInColonAndSpaces q.source = false

namespace Plain

variable {config : Config} {d : Document}

theorem fits (h : Plain config d) {n : Nat} (hn : n ≤ d.text.length) :
    Fits (d.placeAt n).levels (Walk.ofText (d.text.take n) config.keyLookahead) :=
  walk_at_cut h.labels n hn

theorem positioned (h : Plain config d) {n : Nat} (hn : n ≤ d.text.length) :
    Positioned (d.text.take n) (d.placeAt n) :=
  position_at_cut (fun l hl => (h.labels l hl).1) h.quotations n hn

end Plain

/-! ## 2. Paths -/

theorem pathOf_cons (level : Level) (levels : List Level) :
    pathOf (level :: levels) = pathOf levels ++ level.segments := by
  simp [pathOf]

/-- The path to a cut, without the key of the innermost object. -/
theorem keyPath_of_fits_object {text : List Char} {lookahead : Int} {key : Option String}
    {levels : List Level} (h : Fits (.object key :: levels) (Walk.ofText text lookahead)) :
    keyPath text lookahead true = pathOf levels := by
  have hdrop : (Walk.ofText text lookahead).path.drop (Walk.ofText text lookahead).memberSegments
      = levels.flatMap Level.segments := by
    rw [Walk.memberSegments, h.frames, h.path]
    cases key <;> rfl
  simp only [keyPath, if_true]
  rw [hdrop, reverse_flatMap_segments]

/-! ## 3. Where the value of a member goes -/

section Cuts

variable {config : Config} {d : Document} {n : Nat}

/-- The indentation of the line of a cut. -/
theorem indent_ofOffset (hn : n ≤ d.text.length) :
    (Context.ofOffset config d.text (toOffset config.encoding d.text n)).indent
      = String.ofList (leadingIndent (currentLine d.text n)) := by
  rw [Context.ofOffset, toIndex_toOffset _ hn]
  rfl

/-- **Where the value of a member goes, the value path is the path of the place.** -/
theorem valuePath_at_value (h : Plain config d) (hn : n ≤ d.text.length)
    (hspot : (d.placeAt n).spot = .value) :
    let context := Context.ofOffset config d.text (toOffset config.encoding d.text n)
    context.isRoot = false ∧ context.afterColon = true
      ∧ context.valuePath? = some (d.placeAt n).path := by
  obtain ⟨key, levels, hlevels, hawaits⟩ := (h.positioned hn).value hspot
  have hpath := keyPath_of_fits (h.fits hn)
  have hsplit : (d.placeAt n).path = pathOf levels ++ [key] := by
    rw [Place.path, hlevels, pathOf_cons]
    rfl
  intro context
  have hcontext : context = Context.atIndex config d.text n := by
    simp only [context, Context.ofOffset, toIndex_toOffset _ hn]
  have hafter : context.afterColon = true := by rw [hcontext]; exact hawaits.isAfterColon
  have hname : context.propertyName = some key := by
    simp [hcontext, Context.atIndex, hawaits.isAfterColon, hawaits.propertyName]
  have hcontextPath : context.path = (d.placeAt n).path := by
    simp [hcontext, Context.atIndex, hawaits.isAfterColon, hpath, Place.path]
  refine ⟨?_, hafter, ?_⟩
  · simp [Context.isRoot, hcontextPath, hsplit]
  · have hlast : (d.placeAt n).path.getLast? = some key := by rw [hsplit]; simp
    simp only [Context.valuePath?, hafter, hname, hcontextPath, hlast, if_true]

/-! ## 4. Where a member goes or ended -/

/-- **Where a member goes or ended, the path is that of the object.** -/
theorem path_at_member (h : Plain config d) (hn : n ≤ d.text.length)
    (hspot : (d.placeAt n).spot = .member) :
    let context := Context.ofOffset config d.text (toOffset config.encoding d.text n)
    context.afterColon = false ∧ context.inObject = true
      ∧ context.path = pathOf (d.placeAt n).levels.tail := by
  obtain ⟨⟨key, levels, hlevels⟩, hrests⟩ := (h.positioned hn).member hspot
  have hafter := hrests.not_isAfterColon
  have hobject : (Containers.scan (d.text.take n)).inObject = true := by
    have hbraces := (scan_at_cut d n hn).1
    rw [hlevels, openObjects_object] at hbraces
    simp only [Containers.inObject, decide_eq_true_eq]
    omega
  have hfits := h.fits hn
  rw [hlevels] at hfits
  intro context
  have hcontext : context = Context.atIndex config d.text n := by
    simp only [context, Context.ofOffset, toIndex_toOffset _ hn]
  refine ⟨by rw [hcontext]; exact hafter, by rw [hcontext]; exact hobject, ?_⟩
  simp [hcontext, Context.atIndex, hafter, hobject, keyPath_of_fits_object hfits, hlevels]

end Cuts

end SchemaAssist.Cursor
