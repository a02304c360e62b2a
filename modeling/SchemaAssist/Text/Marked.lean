/-
# Documents with a marked cursor

Examples and tests write a document with a marker where the cursor stands.  Splitting removes the
marker and gives the document together with the offset of the cursor.  The marker has to occur
exactly once, counted from left to right without overlap; an empty marker occurs before every
character and at the end.
-/
import SchemaAssist.Text.Echo
import SchemaAssist.Text.Offset

namespace SchemaAssist.Text

/-! ## 1. Occurrences of a marker -/

/-- `text` cut around the first occurrence of `marker`: what comes before it and what after. -/
def cutAt (marker : List Char) : List Char → Option (List Char × List Char)
  | [] => if marker.isEmpty then some ([], []) else none
  | c :: cs =>
    if marker.isPrefixOf (c :: cs) then some ([], (c :: cs).drop marker.length)
    else (cutAt marker cs).map fun (a, b) => (c :: a, b)

/-- How often `marker` occurs when `skip` more characters belong to the occurrence just found. -/
def countFrom (marker : List Char) : Nat → List Char → Nat
  | _, [] => 0
  | skip + 1, _ :: cs => countFrom marker skip cs
  | 0, c :: cs =>
    if marker.isPrefixOf (c :: cs) then countFrom marker (marker.length - 1) cs + 1
    else countFrom marker 0 cs

/-- How often `marker` occurs in `text`, from left to right and without overlap. -/
def occurrences (marker text : List Char) : Nat :=
  if marker.isEmpty then text.length + 1 else countFrom marker 0 text

/-! ## 2. Splitting -/

/-- The marker does not occur exactly once. -/
structure MarkerError where
  marker : List Char
  found : Nat
  deriving DecidableEq, Repr

/-- The text of the error. -/
def MarkerError.message (e : MarkerError) : String :=
  "expected exactly one cursor marker " ++ String.ofList (echo e.marker) ++ ", found "
    ++ toString e.found

/-- The document without its marker, and the offset of the cursor that the marker stood for. -/
def splitMarked (e : Encoding) (marker marked : List Char) : Except MarkerError (List Char × Nat) :=
  let found := occurrences marker marked
  match cutAt marker marked with
  | some (a, b) =>
    if found = 1 then .ok (a ++ b, toOffset e (a ++ b) a.length)
    else .error { marker, found }
  | none => .error { marker, found }

/-! ## 3. What a cut is -/

/-- A cut splits the text around the marker. -/
theorem eq_append_of_cutAt {marker text a b : List Char} (h : cutAt marker text = some (a, b)) :
    text = a ++ marker ++ b := by
  induction text generalizing a b with
  | nil =>
    simp only [cutAt] at h
    split at h
    · simp_all
    · simp at h
  | cons c cs ih =>
    simp only [cutAt] at h
    split at h
    · rename_i hp
      obtain ⟨rest, hrest⟩ := List.isPrefixOf_iff_prefix.mp hp
      simp only [Option.some.injEq, Prod.mk.injEq] at h
      obtain ⟨rfl, rfl⟩ := h
      rw [← hrest]
      simp
    · obtain ⟨⟨x, y⟩, hxy, heq⟩ := Option.map_eq_some_iff.mp h
      simp only [Prod.mk.injEq] at heq
      obtain ⟨rfl, rfl⟩ := heq
      rw [ih hxy]
      simp

end SchemaAssist.Text
