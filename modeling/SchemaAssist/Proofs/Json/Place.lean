/-
# Where a cut of a document lies

Cutting the text of a document in two leaves a place: the containers that are open at the cut, and
what the grammar has there.  The places of all cuts are read off the grammar: `Document.cuts` is the
text once more, each character with the place right after it.  Nothing is scanned for that, so it
says what an analysis of the text before a cut should find out.

* `Place.path` is the path of keys to a place: an array counts as `"0"`, an object as the key of its
  current member, from the colon of that member to the comma after it.
* `Spot` tells the places between tokens apart where editing starts: where an element goes or has
  ended, where a member goes or has ended, and where the value of a member goes.
-/
import SchemaAssist.Proofs.Json.Tree

namespace SchemaAssist.Json

open SchemaAssist.Text

/-! ## 1. Places -/

/-- A container that is open. -/
inductive Level where
  | array
  /-- An object, and the key of its current member after its colon. -/
  | object (key : Option String)
  deriving DecidableEq, Repr

/-- What a container adds to the path. -/
def Level.segments : Level → List String
  | .array => ["0"]
  | .object key => key.toList

/-- What the grammar has at a place. -/
inductive Spot where
  /-- Between tokens, where an element of an array or the value of the document goes or ends. -/
  | element
  /-- Between tokens, where a member of an object goes or ends. -/
  | member
  /-- Between tokens, where the value of a member goes. -/
  | value
  /-- In a key, or between a key and its colon. -/
  | key
  /-- In a string that is a value, or in a bare word or at its end. -/
  | token
  deriving DecidableEq, Repr

/-- A place in a document. -/
structure Place where
  /-- The open containers, the innermost first. -/
  levels : List Level
  spot : Spot
  deriving DecidableEq, Repr

/-- The path of keys that some open containers make up, the innermost first. -/
def pathOf (levels : List Level) : List String :=
  levels.reverse.flatMap Level.segments

/-- The path of keys to a place. -/
def Place.path (p : Place) : List String :=
  pathOf p.levels

/-- The place lies where the value of a member goes, or in a value that is a string or a bare word:
after the opening quote and before the closing one, or up to the end of the word. -/
structure Place.IsMemberValue (p : Place) : Prop where
  /-- The innermost container is an object, and the colon of its current member lies before. -/
  member : ∃ key levels, p.levels = .object (some key) :: levels
  spot : p.spot = .value ∨ p.spot = .token

/-- What may stand at a place between tokens. -/
inductive Phase where
  /-- The name of a member, or the end of an object. -/
  | name
  | value
  /-- What follows a value. -/
  | done
  deriving DecidableEq, Repr

/-- A place between tokens. -/
structure Stage where
  levels : List Level
  phase : Phase
  deriving DecidableEq, Repr

/-- The place of a stage. -/
def Stage.place (s : Stage) : Place where
  levels := s.levels
  spot :=
    match s.levels, s.phase with
    | .object _ :: _, .value => .value
    | .object _ :: _, _ => .member
    | _, _ => .element

@[simp] theorem Stage.levels_place (s : Stage) : s.place.levels = s.levels := rfl

/-! ## 2. The places of a document -/

/-- A text, each character with the place right after it. -/
abbrev Cuts := List (Char × Place)

/-- A text with the same place everywhere. -/
def Cuts.const (chars : List Char) (p : Place) : Cuts :=
  chars.map (·, p)

/-- The text. -/
def Cuts.chars (m : Cuts) : List Char :=
  m.map Prod.fst

/-- The places of a literal that is a value. -/
def Quotation.cuts (levels : List Level) (q : Quotation) : Cuts :=
  Cuts.const ('"' :: q.source) ⟨levels, .token⟩ ++ [('"', Stage.place ⟨levels, .done⟩)]

/-- The containers inside a member after its colon. -/
def Label.levels (levels : List Level) (l : Label) : List Level :=
  .object (some (String.ofList l.key.text)) :: levels

/-- The places of a label between its first blanks and its last ones. -/
def Label.head (levels : List Level) (l : Label) : Cuts :=
  Cuts.const (l.key.chars ++ l.mid.chars) ⟨.object none :: levels, .key⟩
    ++ [(':', Stage.place ⟨l.levels levels, .value⟩)]

/-- The places of the blanks at a stage. -/
def Blanks.cuts (s : Stage) (b : Blanks) : Cuts :=
  Cuts.const b.chars s.place

/-- The places of a label. -/
def Label.cuts (levels : List Level) (l : Label) : Cuts :=
  l.before.cuts ⟨.object none :: levels, .name⟩
    ++ (l.head levels ++ l.gap.cuts ⟨l.levels levels, .value⟩)

mutual

/-- The places of a value inside some open containers. -/
def Tree.cuts (levels : List Level) : Tree → Cuts
  | .bare w => Cuts.const w.chars ⟨levels, .token⟩
  | .literal q => q.cuts levels
  | .emptyArray inner =>
    ('[', Stage.place ⟨.array :: levels, .value⟩)
      :: (inner.cuts ⟨.array :: levels, .value⟩ ++ [(']', Stage.place ⟨levels, .done⟩)])
  | .array elements =>
    ('[', Stage.place ⟨.array :: levels, .value⟩)
      :: (elements.cuts levels ++ [(']', Stage.place ⟨levels, .done⟩)])
  | .emptyObject inner =>
    ('{', Stage.place ⟨.object none :: levels, .name⟩)
      :: (inner.cuts ⟨.object none :: levels, .name⟩ ++ [('}', Stage.place ⟨levels, .done⟩)])
  | .object entries =>
    ('{', Stage.place ⟨.object none :: levels, .name⟩)
      :: (entries.cuts levels ++ [('}', Stage.place ⟨levels, .done⟩)])

/-- The places of the elements of an array inside some open containers. -/
def Elements.cuts (levels : List Level) : Elements → Cuts
  | .last before t after =>
    before.cuts ⟨.array :: levels, .value⟩
      ++ (t.cuts (.array :: levels) ++ after.cuts ⟨.array :: levels, .done⟩)
  | .cons before t after rest =>
    before.cuts ⟨.array :: levels, .value⟩
      ++ (t.cuts (.array :: levels) ++ (after.cuts ⟨.array :: levels, .done⟩
      ++ (',', Stage.place ⟨.array :: levels, .value⟩) :: rest.cuts levels))

/-- The places of the members of an object inside some open containers. -/
def Entries.cuts (levels : List Level) : Entries → Cuts
  | .last label t after =>
    label.cuts levels
      ++ (t.cuts (label.levels levels) ++ after.cuts ⟨label.levels levels, .done⟩)
  | .cons label t after rest =>
    label.cuts levels
      ++ (t.cuts (label.levels levels) ++ (after.cuts ⟨label.levels levels, .done⟩
      ++ (',', Stage.place ⟨.object none :: levels, .name⟩) :: rest.cuts levels))

end

namespace Document

/-- The places of a document. -/
def cuts (d : Document) : Cuts :=
  d.before.cuts ⟨[], .value⟩ ++ (d.tree.cuts [] ++ d.after.cuts ⟨[], .done⟩)

/-- The place of a cut, by the number of characters before it. -/
def placeAt (d : Document) : Nat → Place
  | 0 => Stage.place ⟨[], .value⟩
  | n + 1 => (d.cuts[n]?.map Prod.snd).getD (Stage.place ⟨[], .done⟩)

end Document

/-! ## 3. The text of the places -/

@[simp] theorem Cuts.chars_nil : Cuts.chars [] = [] := rfl

@[simp] theorem Cuts.chars_cons (c : Char) (p : Place) (m : Cuts) :
    Cuts.chars ((c, p) :: m) = c :: m.chars := rfl

@[simp] theorem Cuts.chars_append (m m' : Cuts) :
    Cuts.chars (m ++ m') = m.chars ++ m'.chars :=
  List.map_append

@[simp] theorem Cuts.chars_const (cs : List Char) (p : Place) : (Cuts.const cs p).chars = cs := by
  simp [Cuts.chars, Cuts.const, Function.comp_def]

theorem Cuts.snd_of_mem_const {cs : List Char} {p : Place} {x : Char × Place}
    (h : x ∈ Cuts.const cs p) : x.2 = p := by
  obtain ⟨_, -, rfl⟩ := List.mem_map.mp h
  rfl

@[simp] theorem Blanks.chars_cuts (s : Stage) (b : Blanks) : (b.cuts s).chars = b.chars :=
  Cuts.chars_const _ _

@[simp] theorem Quotation.chars_cuts (levels : List Level) (q : Quotation) :
    (q.cuts levels).chars = q.chars := by
  simp [Quotation.cuts, Quotation.chars]

@[simp] theorem Label.chars_head (levels : List Level) (l : Label) :
    (l.head levels).chars = l.key.chars ++ (l.mid.chars ++ [':']) := by
  simp [Label.head]

@[simp] theorem Label.chars_cuts (levels : List Level) (l : Label) :
    (l.cuts levels).chars = l.chars := by
  simp [Label.cuts, Label.chars]

mutual

@[simp] theorem Tree.chars_cuts (levels : List Level) :
    ∀ t : Tree, (t.cuts levels).chars = t.chars
  | .bare w => by simp [Tree.cuts, Tree.chars]
  | .literal q => by simp [Tree.cuts, Tree.chars]
  | .emptyArray inner => by simp [Tree.cuts, Tree.chars]
  | .array elements => by simp [Tree.cuts, Tree.chars, Elements.chars_cuts levels elements]
  | .emptyObject inner => by simp [Tree.cuts, Tree.chars]
  | .object entries => by simp [Tree.cuts, Tree.chars, Entries.chars_cuts levels entries]

@[simp] theorem Elements.chars_cuts (levels : List Level) :
    ∀ e : Elements, (e.cuts levels).chars = e.chars
  | .last _ t _ => by simp [Elements.cuts, Elements.chars, Tree.chars_cuts _ t]
  | .cons _ t _ rest => by
    simp [Elements.cuts, Elements.chars, Tree.chars_cuts _ t, Elements.chars_cuts levels rest]

@[simp] theorem Entries.chars_cuts (levels : List Level) :
    ∀ e : Entries, (e.cuts levels).chars = e.chars
  | .last _ t _ => by simp [Entries.cuts, Entries.chars, Tree.chars_cuts _ t]
  | .cons _ t _ rest => by
    simp [Entries.cuts, Entries.chars, Tree.chars_cuts _ t, Entries.chars_cuts levels rest]

end

/-- The places are those of the text. -/
@[simp] theorem Document.chars_cuts (d : Document) : d.cuts.chars = d.text := by
  simp [Document.cuts, Document.text]

theorem Document.length_cuts (d : Document) : d.cuts.length = d.text.length := by
  rw [← d.chars_cuts, Cuts.chars, List.length_map]

end SchemaAssist.Json
