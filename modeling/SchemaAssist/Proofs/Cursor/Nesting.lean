/-
# Two ways to follow containers

The walk for the path of keys keeps a stack of the containers that are open, and the scan counts
braces and brackets.  The scan has no stack, and the walk does not look at the kind of the container
that it closes, so what they have in common depends on the text:

* where no container is closed in excess, there are as many frames on the stack as braces and
  brackets are open;
* where every container is closed by its own mark, the open braces are the objects on the stack and
  the open brackets the arrays.

`depths_of_frames` has both, for every lookahead of the walk.  In between stands `Nesting`, which
follows containers and nothing else: the walk always keeps in step with it (`Walk.nesting_run`), the
scan as far as the text allows (`SameDepth`, `SameCounts`).
-/
import SchemaAssist.Cursor.Containers
import SchemaAssist.Cursor.KeyPath

namespace SchemaAssist.Cursor

/-! ## 1. The containers that a text leaves open -/

/-- How far containers have been followed. -/
structure Nesting where
  /-- The open containers, the innermost first. -/
  containers : List Container := []
  quote : Quote := .outside
  deriving DecidableEq, Repr

namespace Nesting

/-- What a character outside literals does to the open containers.  A closing mark ends the
innermost one. -/
def mark (containers : List Container) (c : Char) : List Container :=
  if c = '{' then .object :: containers
  else if c = '[' then .array :: containers
  else if c = '}' ∨ c = ']' then containers.tail
  else containers

theorem mark_close (kind : Container) (outer : List Container) {c : Char} (h : c = '}' ∨ c = ']') :
    mark (kind :: outer) c = outer := by
  rcases h with rfl | rfl <;> rfl

/-- One character more. -/
def step (t : Nesting) (c : Char) : Nesting where
  containers := if t.quote = .outside then mark t.containers c else t.containers
  quote := t.quote.step c

/-- The containers that a text leaves open. -/
def ofText (text : List Char) : Nesting :=
  text.foldl step {}

/-- Where a character closes a container outside literals, `P` holds of the kind of its mark and of
the containers that are open. -/
def Admits (P : Container → List Container → Prop) (t : Nesting) (c : Char) : Prop :=
  t.quote = .outside → (c = '}' → P .object t.containers) ∧ (c = ']' → P .array t.containers)

/-- So it does all along a text. -/
def AdmitsAll (P : Container → List Container → Prop) : Nesting → List Char → Prop
  | _, [] => True
  | t, c :: cs => t.Admits P c ∧ AdmitsAll P (t.step c) cs

section Decidable

variable {P : Container → List Container → Prop} [∀ kind containers, Decidable (P kind containers)]

instance (t : Nesting) (c : Char) : Decidable (t.Admits P c) :=
  inferInstanceAs (Decidable (_ → _ ∧ _))

instance decidableAdmitsAll : ∀ (t : Nesting) (text : List Char), Decidable (t.AdmitsAll P text)
  | _, [] => .isTrue trivial
  | t, c :: cs =>
    have := decidableAdmitsAll (t.step c) cs
    inferInstanceAs (Decidable (_ ∧ _))

end Decidable

variable {P : Container → List Container → Prop}

theorem admitsAll_iff : ∀ {t : Nesting} {text : List Char},
    t.AdmitsAll P text
      ↔ ∀ before c rest, text = before ++ c :: rest → (before.foldl step t).Admits P c
  | t, [] => by simp [AdmitsAll]
  | t, c :: cs => by
    rw [AdmitsAll, admitsAll_iff]
    constructor
    · rintro ⟨hc, hcs⟩ before d rest hsplit
      cases before with
      | nil =>
        obtain ⟨rfl, -⟩ := List.cons.inj hsplit
        exact hc
      | cons b before =>
        obtain ⟨rfl, htail⟩ := List.cons.inj hsplit
        exact hcs before d rest htail
    · intro h
      refine ⟨h [] c cs rfl, ?_⟩
      intro before d rest hsplit
      exact h (c :: before) d rest (by rw [hsplit, List.cons_append])

end Nesting

/-- Outside literals no container is closed while none is open. -/
def NoneInExcess (text : List Char) : Prop :=
  ∀ before c rest, text = before ++ c :: rest →
    (Nesting.ofText before).Admits (fun _ containers => containers ≠ []) c

/-- Outside literals every container is closed by a mark of its own kind. -/
def ClosersMatch (text : List Char) : Prop :=
  ∀ before c rest, text = before ++ c :: rest →
    (Nesting.ofText before).Admits (fun kind containers => containers.head? = some kind) c

/-! ## 2. The walk -/

namespace Walk

variable {isKey : List Char → Bool}

/-- The kinds of the open containers, the innermost first. -/
def kinds (s : Walk) : List Container :=
  s.frames.map Frame.kind

theorem kinds_close (s : Walk) : s.close.kinds = s.kinds.tail := by
  cases h : s.frames <;> simp [close, kinds, h]

theorem kinds_endMember (s : Walk) : s.endMember.kinds = s.kinds := by
  unfold endMember
  split
  · rename_i n frames h
    simp [kinds, h]
  · rfl

theorem kinds_pushKey (s : Walk) (key : String) : (s.pushKey key).kinds = s.kinds := by
  unfold pushKey
  split
  · rename_i n frames _ h
    simp [kinds, h]
  · rfl

theorem kinds_mark (s : Walk) (c : Char) : (s.mark c).kinds = Nesting.mark s.kinds c := by
  unfold mark Nesting.mark
  by_cases hquote : c = '"'
  · subst hquote
    rfl
  by_cases hbrace : c = '{'
  · simp [hbrace, kinds]
  by_cases hbracket : c = '['
  · simp [hbracket, kinds]
  by_cases hclose : c = '}' ∨ c = ']'
  · simp only [if_neg hquote, if_neg hbrace, if_neg hbracket, if_pos hclose]
    exact s.kinds_close
  · simp only [if_neg hquote, if_neg hbrace, if_neg hbracket, if_neg hclose]
    split
    · exact s.kinds_endMember
    · rfl

theorem kinds_inside (s : Walk) (c : Char) (rest : List Char) :
    (s.inside isKey c rest).kinds = s.kinds := by
  unfold inside
  split
  · split
    · exact s.kinds_pushKey _
    · rfl
  · rfl

/-- What the walk has of the containers. -/
def nesting (s : Walk) : Nesting where
  containers := s.kinds
  quote := s.quote

theorem nesting_step (s : Walk) (c : Char) (rest : List Char) :
    (s.step isKey c rest).nesting = s.nesting.step c := by
  have hkinds : (s.step isKey c rest).kinds
      = if s.quote = .outside then Nesting.mark s.kinds c else s.kinds := by
    by_cases hquote : s.quote = .outside
    · simp only [step, hquote, if_true]
      exact s.kinds_mark c
    · simp only [step, hquote, if_false]
      exact s.kinds_inside c rest
  simp only [nesting, Nesting.step, hkinds]
  rfl

/-- **The walk follows the containers**, whatever it takes for a key. -/
theorem nesting_run (text : List Char) (s : Walk) :
    (s.run isKey text).nesting = text.foldl Nesting.step s.nesting := by
  induction text generalizing s with
  | nil => rfl
  | cons c cs ih => rw [run, ih, nesting_step, List.foldl_cons]

theorem kinds_ofText (text : List Char) (lookahead : Int) :
    (ofText text lookahead).kinds = (Nesting.ofText text).containers :=
  congrArg Nesting.containers (nesting_run text {})

end Walk

/-! ## 3. The scan -/

/-- The scan and the containers keep in step if a relation between them is kept by every character
that is admitted. -/
theorem foldl_lockstep {R : Containers → Nesting → Prop} {P : Container → List Container → Prop}
    (hstep : ∀ s t c, R s t → t.Admits P c → R (s.step c) (t.step c)) :
    ∀ (text : List Char) (s : Containers) (t : Nesting), R s t → t.AdmitsAll P text →
      R (text.foldl Containers.step s) (text.foldl Nesting.step t)
  | [], _, _, h, _ => h
  | c :: cs, s, t, h, hadmits =>
    foldl_lockstep hstep cs _ _ (hstep s t c h hadmits.1) hadmits.2

/-- As many braces and brackets are open as containers. -/
structure SameDepth (s : Containers) (t : Nesting) : Prop where
  quote : s.quote = t.quote
  depth : s.braces + s.brackets = t.containers.length

/-- The braces that are open are the objects, and the brackets the arrays. -/
structure SameCounts (s : Containers) (t : Nesting) : Prop where
  quote : s.quote = t.quote
  objects : s.braces = t.containers.count .object
  arrays : s.brackets = t.containers.count .array

/-- A mark adds to the containers what it adds to braces and brackets together, unless it closes
nothing. -/
theorem length_mark {containers : List Container} {c : Char}
    (hne : c = '}' ∨ c = ']' → containers ≠ []) :
    ((Nesting.mark containers c).length : Int)
      = containers.length + (Containers.braceDelta c + Containers.bracketDelta c) := by
  by_cases hclose : c = '}' ∨ c = ']'
  · obtain ⟨kind, outer, rfl⟩ := List.exists_cons_of_ne_nil (hne hclose)
    have hdelta : Containers.braceDelta c + Containers.bracketDelta c = -1 := by
      rcases hclose with rfl | rfl <;> rfl
    rw [Nesting.mark_close kind outer hclose, hdelta, List.length_cons]
    omega
  · by_cases hbrace : c = '{'
    · subst hbrace
      simp [Nesting.mark, Containers.braceDelta, Containers.bracketDelta]
    by_cases hbracket : c = '['
    · subst hbracket
      simp [Nesting.mark, Containers.braceDelta, Containers.bracketDelta]
    obtain ⟨hbrace', hbracket'⟩ := not_or.mp hclose
    simp [Nesting.mark, Containers.braceDelta, Containers.bracketDelta, *]

theorem SameDepth.step {s : Containers} {t : Nesting} {c : Char} (h : SameDepth s t)
    (hadmits : t.Admits (fun _ containers => containers ≠ []) c) :
    SameDepth (s.step c) (t.step c) := by
  refine ⟨congrArg (Quote.step · c) h.quote, ?_⟩
  simp only [Containers.step, Nesting.step, h.quote]
  split
  · rename_i hquote
    obtain ⟨hobject, harray⟩ := hadmits hquote
    rw [length_mark (fun hc => hc.elim hobject harray), ← h.depth]
    omega
  · exact h.depth

/-- A mark adds to the containers of each kind what it adds to braces or brackets, unless it closes
a container of the other kind. -/
theorem count_mark {containers : List Container} {c : Char}
    (hobject : c = '}' → containers.head? = some .object)
    (harray : c = ']' → containers.head? = some .array) :
    ((Nesting.mark containers c).count .object : Int)
        = containers.count .object + Containers.braceDelta c
      ∧ ((Nesting.mark containers c).count .array : Int)
        = containers.count .array + Containers.bracketDelta c := by
  by_cases hbrace : c = '{'
  · subst hbrace
    simp [Nesting.mark, Containers.braceDelta, Containers.bracketDelta]
  by_cases hbracket : c = '['
  · subst hbracket
    simp [Nesting.mark, Containers.braceDelta, Containers.bracketDelta]
  by_cases hbrace' : c = '}'
  · obtain ⟨outer, rfl⟩ := List.head?_eq_some_iff.mp (hobject hbrace')
    subst hbrace'
    rw [Nesting.mark_close .object outer (by decide), List.count_cons_self,
      List.count_cons_of_ne (by decide)]
    simp only [Containers.braceDelta, Containers.bracketDelta, Char.reduceEq, ↓reduceIte]
    omega
  by_cases hbracket' : c = ']'
  · obtain ⟨outer, rfl⟩ := List.head?_eq_some_iff.mp (harray hbracket')
    subst hbracket'
    rw [Nesting.mark_close .array outer (by decide), List.count_cons_self,
      List.count_cons_of_ne (by decide)]
    simp only [Containers.braceDelta, Containers.bracketDelta, Char.reduceEq, ↓reduceIte]
    omega
  simp [Nesting.mark, Containers.braceDelta, Containers.bracketDelta, *]

theorem SameCounts.step {s : Containers} {t : Nesting} {c : Char} (h : SameCounts s t)
    (hadmits : t.Admits (fun kind containers => containers.head? = some kind) c) :
    SameCounts (s.step c) (t.step c) := by
  by_cases hquote : t.quote = .outside
  · obtain ⟨hobject, harray⟩ := hadmits hquote
    obtain ⟨hobjects, harrays⟩ := count_mark hobject harray
    refine ⟨congrArg (Quote.step · c) h.quote, ?_, ?_⟩
    · simp only [Containers.step, Nesting.step, h.quote, hquote, if_true, hobjects, h.objects]
    · simp only [Containers.step, Nesting.step, h.quote, hquote, if_true, harrays, h.arrays]
  · refine ⟨congrArg (Quote.step · c) h.quote, ?_, ?_⟩
    · simpa only [Containers.step, Nesting.step, h.quote, hquote, if_false] using h.objects
    · simpa only [Containers.step, Nesting.step, h.quote, hquote, if_false] using h.arrays

/-! ## 4. The walk and the scan -/

/-- The number of frames of a kind. -/
theorem count_kinds (s : Walk) (kind : Container) :
    s.kinds.count kind = s.frames.countP fun frame => frame.kind == kind := by
  rw [Walk.kinds, List.count_eq_countP, List.countP_map]
  rfl

/-- A depth is positive just if there is a frame. -/
theorem pos_iff_exists_frame {s : Walk} {kind : Container} {depth : Int}
    (h : depth = s.frames.countP fun frame => frame.kind == kind) :
    decide (0 < depth) = true ↔ ∃ frame ∈ s.frames, frame.kind = kind := by
  rw [decide_eq_true_eq, h, Int.natCast_pos, List.countP_pos_iff]
  simp

/-- **Where no container is closed in excess, the walk has as many frames as braces and brackets are
open**, and where every container is closed by a mark of its own kind, the braces are its objects
and the brackets its arrays. -/
theorem depths_of_frames {text : List Char} (hexcess : NoneInExcess text) (lookahead : Int) :
    let walk := Walk.ofText text lookahead
    let scan := Containers.scan text
    (walk.frames.length : Int) = scan.braces + scan.brackets
      ∧ (ClosersMatch text →
          scan.braces = walk.frames.countP (fun frame => frame.kind == .object)
          ∧ scan.brackets = walk.frames.countP (fun frame => frame.kind == .array)
          ∧ (scan.inObject = true ↔ ∃ frame ∈ walk.frames, frame.kind = .object)
          ∧ (scan.inArray = true ↔ ∃ frame ∈ walk.frames, frame.kind = .array)) := by
  intro walk scan
  have hkinds : walk.kinds = (Nesting.ofText text).containers := Walk.kinds_ofText text lookahead
  constructor
  · have hdepth : SameDepth scan (Nesting.ofText text) :=
      foldl_lockstep (fun _ _ _ => SameDepth.step) text {} {} ⟨rfl, rfl⟩
        (Nesting.admitsAll_iff.mpr hexcess)
    rw [hdepth.depth, ← hkinds, Walk.kinds, List.length_map]
  · intro hmatch
    have hcounts : SameCounts scan (Nesting.ofText text) :=
      foldl_lockstep (fun _ _ _ => SameCounts.step) text {} {} ⟨rfl, rfl, rfl⟩
        (Nesting.admitsAll_iff.mpr hmatch)
    have hobjects := hcounts.objects
    have harrays := hcounts.arrays
    rw [← hkinds, count_kinds] at hobjects harrays
    exact ⟨hobjects, harrays, pos_iff_exists_frame hobjects, pos_iff_exists_frame harrays⟩

/-- In `[{"}": "\"]"}, {` an array and an object are open, in a window that is no window. -/
theorem depths_of_frames_escaped :
    let text := "[\x7b\"\x7d\": \"\\\"]\"\x7d, \x7b".toList
    NoneInExcess text ∧ ClosersMatch text
      ∧ (Walk.ofText text (-3)).frames.length = 2 ∧ (Containers.scan text).inObject = true
      ∧ ∃ frame ∈ (Walk.ofText text (-3)).frames, frame.kind = .array := by
  intro text
  have hexcess : NoneInExcess text := Nesting.admitsAll_iff.mp (by decide)
  have hmatch : ClosersMatch text := Nesting.admitsAll_iff.mp (by decide)
  obtain ⟨hlength, hcounts⟩ := depths_of_frames hexcess (-3)
  obtain ⟨-, -, -, harray⟩ := hcounts hmatch
  have hscan : (Containers.scan text).braces + (Containers.scan text).brackets = 2 := by decide
  refine ⟨hexcess, hmatch, ?_, by decide, harray.mp (by decide)⟩
  rw [hscan] at hlength
  exact_mod_cast hlength

end SchemaAssist.Cursor
