/-
# Which segments of the path belong to which container

The walk keeps the path flat, and each open container counts the segments at its end that are its
own.  All that the walk takes off the path is taken off by that count, so the counts have to fit the
path at any time, in texts of any kind: with closing marks of the wrong kind or in excess, with keys
that follow each other, with commas where none belong.

They do, because an array puts one segment on the path when it is opened and never another, an
object puts a key there only after taking off what was its own, and whatever is closed takes all of
its own with it (`SplitsAlong`).  So what is taken off is always the innermost container's
(`Walk.outer_suffix_of_edit`), and the key that a member position leaves out is a single one.

* `Walk.edit_step`, `Walk.Splits.edit`, `Walk.splits_trace`: one character, and a whole text;
* `path_splits_along_frames`: the consequences.
-/
import Mathlib.Algebra.GroupWithZero.Nat
import Mathlib.Data.List.Forall2
import SchemaAssist.Cursor.KeyPath

namespace SchemaAssist.Cursor

/-! ## 1. The parts of a path -/

/-- What a container may own of a path. -/
structure Frame.Owns (frame : Frame) (part : List String) : Prop where
  length : part.length = frame.segments
  array : frame.kind = .array → part = [arrayPlaceholder]
  object : frame.kind = .object → part.length ≤ 1

/-- A path is made of parts that containers own, the innermost container and its part first. -/
def SplitsAlong (frames : List Frame) (path : List String) : Prop :=
  ∃ parts, path = parts.flatten ∧ List.Forall₂ Frame.Owns frames parts

section SplitsAlong

variable {frame : Frame} {frames : List Frame} {part path outer : List String}

theorem Frame.owns_array : Owns ⟨.array, 1⟩ [arrayPlaceholder] where
  length := rfl
  array _ := rfl
  object := nofun

theorem Frame.owns_object (part : List String) (h : part.length ≤ 1) :
    Owns ⟨.object, part.length⟩ part where
  length := rfl
  array := nofun
  object _ := h

theorem splitsAlong_nil : SplitsAlong [] [] :=
  ⟨[], rfl, .nil⟩

theorem SplitsAlong.cons (hpart : frame.Owns part) (h : SplitsAlong frames outer) :
    SplitsAlong (frame :: frames) (part ++ outer) := by
  obtain ⟨parts, rfl, hparts⟩ := h
  exact ⟨part :: parts, rfl, hparts.cons hpart⟩

/-- The segments of the innermost container come first. -/
theorem SplitsAlong.exists_append (h : SplitsAlong (frame :: frames) path) :
    ∃ part outer, path = part ++ outer ∧ frame.Owns part ∧ SplitsAlong frames outer := by
  obtain ⟨parts, rfl, hparts⟩ := h
  obtain ⟨part, outer, hpart, houter, rfl⟩ := List.forall₂_cons_left_iff.mp hparts
  exact ⟨part, outer.flatten, rfl, hpart, outer, rfl, houter⟩

/-- Without them the path is that of the containers around it. -/
theorem SplitsAlong.drop (h : SplitsAlong (frame :: frames) path) :
    SplitsAlong frames (path.drop frame.segments) := by
  obtain ⟨part, outer, rfl, hpart, houter⟩ := h.exists_append
  rwa [← hpart.length, List.drop_left]

/-- There are as many segments as the containers count. -/
theorem SplitsAlong.length_eq (h : SplitsAlong frames path) :
    path.length = (frames.map Frame.segments).sum := by
  obtain ⟨parts, rfl, hparts⟩ := h
  induction hparts with
  | nil => rfl
  | cons hpart _ ih => simp [ih, hpart.length]

theorem Frame.Owns.length_le_one (h : frame.Owns part) : part.length ≤ 1 := by
  cases hkind : frame.kind with
  | array =>
    rw [h.array hkind]
    exact Nat.le_refl 1
  | object => exact h.object hkind

/-- No container owns more than one. -/
theorem SplitsAlong.length_le (h : SplitsAlong frames path) : path.length ≤ frames.length := by
  obtain ⟨parts, rfl, hparts⟩ := h
  induction hparts with
  | nil => exact Nat.le_refl 0
  | cons hpart _ ih =>
    have := hpart.length_le_one
    simp only [List.flatten_cons, List.length_append, List.length_cons]
    omega

end SplitsAlong

/-! ## 2. What a character does to them -/

/-- What a character may do to the path and the containers of a walk. -/
inductive Edit (w w' : Walk) : Prop where
  | unchanged : w'.path = w.path → w'.frames = w.frames → Edit w w'
  /-- A container is opened, and what is its own put on the path. -/
  | opened {frame : Frame} {part : List String} : frame.Owns part →
      w'.frames = frame :: w.frames → w'.path = part ++ w.path → Edit w w'
  /-- The innermost container is closed, and what was its own taken off the path. -/
  | closed {frame : Frame} : w.frames = frame :: w'.frames →
      w'.path = w.path.drop frame.segments → Edit w w'
  /-- The innermost container owns something else than before. -/
  | owned {frame frame' : Frame} {frames : List Frame} {part : List String} : frame'.Owns part →
      w.frames = frame :: frames → w'.frames = frame' :: frames →
      w'.path = part ++ w.path.drop frame.segments → Edit w w'

namespace Walk

variable {isKey : List Char → Bool}

theorem edit_close (w : Walk) : Edit w w.close := by
  unfold close
  split
  · exact .unchanged rfl rfl
  · rename_i frame frames hframes
    exact .closed hframes rfl

theorem edit_endMember (w : Walk) : Edit w w.endMember := by
  unfold endMember
  split
  · rename_i n frames hframes
    exact .owned (Frame.owns_object [] (Nat.zero_le 1)) hframes rfl rfl
  · exact .unchanged rfl rfl

theorem edit_pushKey (w : Walk) (key : String) : Edit w (w.pushKey key) := by
  unfold pushKey
  split
  · rename_i n frames _ hframes
    exact .owned (Frame.owns_object [key] (Nat.le_refl 1)) hframes rfl rfl
  · exact .unchanged rfl rfl

theorem edit_mark (w : Walk) (c : Char) : Edit w (w.mark c) := by
  unfold mark
  split
  · exact .unchanged rfl rfl
  split
  · exact .opened (Frame.owns_object [] (Nat.zero_le 1)) rfl rfl
  split
  · exact .opened Frame.owns_array rfl rfl
  split
  · exact w.edit_close
  split
  · exact w.edit_endMember
  · exact .unchanged rfl rfl

theorem edit_inside (w : Walk) (c : Char) (rest : List Char) :
    Edit w (w.inside isKey c rest) := by
  unfold inside
  split
  · split
    · exact w.edit_pushKey _
    · exact .unchanged rfl rfl
  · exact .unchanged rfl rfl

end Walk

/-- The state with respect to literals does not matter. -/
theorem Edit.quote {w w' : Walk} (h : Edit w w') (q : Quote) : Edit w { w' with quote := q } := by
  cases h with
  | unchanged hpath hframes => exact .unchanged hpath hframes
  | opened hpart hframes hpath => exact .opened hpart hframes hpath
  | closed hframes hpath => exact .closed hframes hpath
  | owned hpart hframes hframes' hpath => exact .owned hpart hframes hframes' hpath

/-- **What one character does**, whatever it is and whatever comes next. -/
theorem Walk.edit_step (isKey : List Char → Bool) (w : Walk) (c : Char) (rest : List Char) :
    Edit w (w.step isKey c rest) := by
  rw [step]
  apply Edit.quote
  split
  · exact w.edit_mark c
  · exact w.edit_inside c rest

/-! ## 3. All along a text -/

namespace Walk

variable {isKey : List Char → Bool} {w w' : Walk}

/-- The path of a walk splits along its containers. -/
def Splits (w : Walk) : Prop := SplitsAlong w.frames w.path

/-- The path of the containers around the innermost one. -/
def outer (w : Walk) : List String :=
  match w.frames with
  | [] => w.path
  | frame :: _ => w.path.drop frame.segments

theorem Splits.edit (h : w.Splits) (hedit : Edit w w') : w'.Splits := by
  unfold Splits at h ⊢
  cases hedit with
  | unchanged hpath hframes =>
    rw [hpath, hframes]
    exact h
  | opened hpart hframes hpath =>
    rw [hpath, hframes]
    exact h.cons hpart
  | closed hframes hpath =>
    rw [hframes] at h
    rw [hpath]
    exact h.drop
  | owned hpart hframes hframes' hpath =>
    rw [hframes] at h
    rw [hpath, hframes']
    exact h.drop.cons hpart

theorem outer_suffix_path (w : Walk) : w.outer <:+ w.path := by
  unfold outer
  split
  · exact List.suffix_refl _
  · exact List.drop_suffix _ _

/-- **What is taken off the path belongs to the innermost container.** -/
theorem outer_suffix_of_edit (h : Edit w w') : w.outer <:+ w'.path := by
  cases h with
  | unchanged hpath _ =>
    rw [hpath]
    exact w.outer_suffix_path
  | opened _ _ hpath =>
    rw [hpath]
    exact w.outer_suffix_path.trans (List.suffix_append _ _)
  | closed hframes hpath =>
    have houter : w'.path = w.outer := by rw [hpath, outer, hframes]
    exact houter ▸ List.suffix_refl w.outer
  | owned _ hframes _ hpath =>
    rw [hpath, outer, hframes]
    exact List.suffix_append _ _

/-- The walks on the way through a text: at the start, and after each character. -/
def trace (isKey : List Char → Bool) : Walk → List Char → List Walk
  | w, [] => [w]
  | w, c :: cs => w :: trace isKey (w.step isKey c cs) cs

theorem exists_trace_eq_cons (isKey : List Char → Bool) (w : Walk) (text : List Char) :
    ∃ rest, trace isKey w text = w :: rest := by
  cases text with
  | nil => exact ⟨[], rfl⟩
  | cons c cs => exact ⟨_, rfl⟩

/-- The last of them is the walk over the whole text. -/
theorem getLast?_trace : ∀ (text : List Char) (w : Walk),
    (trace isKey w text).getLast? = some (run isKey w text)
  | [], _ => rfl
  | c :: cs, w => by
    obtain ⟨rest, hrest⟩ := exists_trace_eq_cons isKey (w.step isKey c cs) cs
    have ih := getLast?_trace cs (w.step isKey c cs)
    rw [hrest] at ih
    rw [trace, run, hrest, List.getLast?_cons_cons, ih]

/-- What holds at the start and is kept by every character holds all along. -/
theorem forall_mem_trace {P : Walk → Prop} (hstep : ∀ w c rest, P w → P (w.step isKey c rest)) :
    ∀ (text : List Char) {w : Walk}, P w → ∀ w' ∈ trace isKey w text, P w'
  | [], w, h => by simpa [trace] using h
  | c :: cs, w, h => by
    rw [trace]
    exact List.forall_mem_cons.mpr ⟨h, forall_mem_trace hstep cs (hstep w c cs h)⟩

/-- What each character does holds of each two walks in a row. -/
theorem isChain_trace {R : Walk → Walk → Prop} (hstep : ∀ w c rest, R w (w.step isKey c rest)) :
    ∀ (text : List Char) (w : Walk), (trace isKey w text).IsChain R
  | [], w => .singleton w
  | c :: cs, w => by
    obtain ⟨rest, hrest⟩ := exists_trace_eq_cons isKey (w.step isKey c cs) cs
    have ih := isChain_trace hstep cs (w.step isKey c cs)
    rw [hrest] at ih
    rw [trace, hrest]
    exact .cons_cons (hstep w c cs) ih

theorem splits_trace (isKey : List Char → Bool) (text : List Char) :
    ∀ w ∈ trace isKey {} text, w.Splits :=
  forall_mem_trace (fun w c rest h => h.edit (w.edit_step isKey c rest)) text splitsAlong_nil

theorem splits_ofText (text : List Char) (lookahead : Int) : (ofText text lookahead).Splits :=
  splits_trace _ text _ (List.mem_of_getLast? (getLast?_trace text {}))

/-- The innermost container is an object that owns a key. -/
def HasPendingKey (w : Walk) : Prop :=
  ∃ frame ∈ w.frames.head?, frame.kind = .object ∧ 0 < frame.segments

instance (w : Walk) : Decidable w.HasPendingKey :=
  inferInstanceAs (Decidable (∃ frame ∈ w.frames.head?, _))

/-- A key that is pending is the last segment of the path, and the only one that a member position
leaves out. -/
theorem Splits.exists_cons (h : w.Splits) (hkey : w.HasPendingKey) :
    ∃ key, w.path = key :: w.path.drop w.memberSegments := by
  obtain ⟨⟨kind, n⟩, hhead, hobject, hn⟩ := hkey
  obtain ⟨frames, hframes⟩ := List.head?_eq_some_iff.mp hhead
  obtain rfl : kind = .object := hobject
  have hpos : 0 < n := hn
  rw [Splits, hframes] at h
  obtain ⟨part, outer, hpath, hpart, -⟩ := h.exists_append
  have hlength : part.length = n := hpart.length
  have hone := hpart.object rfl
  obtain ⟨key, rfl⟩ : ∃ key, part = [key] := List.length_eq_one_iff.mp (by omega)
  have hsegments : w.memberSegments = 1 := by
    rw [memberSegments, hframes]
    exact hlength.symm
  exact ⟨key, by rw [hsegments, hpath]; rfl⟩

/-- Where no key is pending, a member position leaves out nothing. -/
theorem memberSegments_of_not_hasPendingKey (h : ¬ w.HasPendingKey) : w.memberSegments = 0 := by
  unfold memberSegments
  split
  · rename_i n frames hframes
    refine Nat.eq_zero_of_not_pos fun hn => h ?_
    exact ⟨⟨.object, n⟩, by simp [hframes], rfl, hn⟩
  · rfl

end Walk

/-- **The path splits along the open containers**, all along every text: they count its segments,
an array owns its placeholder and an object a key at most, and no character takes away what belongs
to a container around the innermost one.  So the path without the key of a member is the path
without its last segment where a key is pending, and the path itself elsewhere. -/
theorem path_splits_along_frames (text : List Char) (lookahead : Int) :
    let walks := Walk.trace (colonFollows text.length lookahead) {} text
    let walk := Walk.ofText text lookahead
    walks.getLast? = some walk
      ∧ (∀ w ∈ walks, SplitsAlong w.frames w.path
          ∧ w.path.length = (w.frames.map Frame.segments).sum
          ∧ w.path.length ≤ w.frames.length)
      ∧ walks.IsChain (fun w w' => w.outer <:+ w'.path)
      ∧ (walk.HasPendingKey →
          ∃ key, keyPath text lookahead false = keyPath text lookahead true ++ [key])
      ∧ (¬ walk.HasPendingKey → keyPath text lookahead true = keyPath text lookahead false) := by
  intro walks walk
  refine ⟨Walk.getLast?_trace text {}, ?_, ?_, ?_, ?_⟩
  · intro w hw
    have hsplits : SplitsAlong w.frames w.path := Walk.splits_trace _ text w hw
    exact ⟨hsplits, hsplits.length_eq, hsplits.length_le⟩
  · refine Walk.isChain_trace ?_ text {}
    intro w c rest
    exact Walk.outer_suffix_of_edit (w.edit_step _ c rest)
  · intro hkey
    obtain ⟨key, hpath⟩ := (Walk.splits_ofText text lookahead).exists_cons hkey
    refine ⟨key, ?_⟩
    simp only [keyPath, Bool.false_eq_true, if_false, if_true]
    rw [← List.reverse_cons, ← hpath]
  · intro hkey
    have hnone : (Walk.ofText text lookahead).memberSegments = 0 :=
      Walk.memberSegments_of_not_hasPendingKey hkey
    simp [keyPath, hnone]

/-- In `}[{]"a":[}{"b" "k":` only the last literal is a key, and a comma after its value ends it. -/
theorem path_splits_along_frames_broken :
    let text := "\x7d[\x7b]\"a\":[\x7d\x7b\"b\" \"k\":".toList
    (Walk.ofText text 10).HasPendingKey
      ∧ (∃ key, keyPath text 10 false = keyPath text 10 true ++ [key])
      ∧ ¬ (Walk.ofText (text ++ ['1', ',']) 10).HasPendingKey
      ∧ keyPath (text ++ ['1', ',']) 10 true = keyPath (text ++ ['1', ',']) 10 false := by
  intro text
  have hkey : (Walk.ofText text 10).HasPendingKey := by decide
  have hnone : ¬ (Walk.ofText (text ++ ['1', ',']) 10).HasPendingKey := by decide
  obtain ⟨-, -, -, hpending, -⟩ := path_splits_along_frames text 10
  obtain ⟨-, -, -, -, hended⟩ := path_splits_along_frames (text ++ ['1', ',']) 10
  exact ⟨hkey, hpending hkey, hnone, hended hnone⟩

example : keyPath "\x7d[\x7b]\"a\":[\x7d\x7b\"b\" \"k\":".toList 10 false = ["0", "k"] := by decide

end SchemaAssist.Cursor
