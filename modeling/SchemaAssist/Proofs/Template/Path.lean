/-
# The paths of a document template

Without markup a document template is an object with a row for each property of the root, and the
value of a section is an object with a row for each of its own properties (`Rows`).  This file
follows the walk for the path of keys from row to row: before a name it has left all the rows
before, whatever their values are, and where the value goes it has the name on the path.

* `toList_documentTemplate`: the text of a document template, row by row;
* `Rows.reached_upto`: the walk where the value of a row goes;
* `paths_in_template`: the path of keys there, and that it leads to the schema of the property.
-/
import SchemaAssist.Proofs.Cursor.Completed
import SchemaAssist.Proofs.Schema.Walk
import SchemaAssist.Proofs.Template.Member
import SchemaAssist.Proofs.Text.Lines

namespace SchemaAssist.Template

open SchemaAssist.Cursor SchemaAssist.Json SchemaAssist.Schema SchemaAssist.Text

/-! ## 1. Rows -/

theorem chars_separated (rows : List (List Piece)) :
    chars (separated ",\n" rows) = [',', '\n'].intercalate (rows.map chars) := by
  induction rows using separated.induct with
  | case1 => rfl
  | case2 row => simp [separated]
  | case3 row rest hrest ih =>
    cases rest with
    | nil => exact absurd rfl hrest
    | cons next rest => simp [separated, ih]

/-- How the properties of an object are written: each on a line of its own. -/
structure Rows where
  indent : String
  value : Property → List Char

namespace Rows

variable {r : Rows} {ps : List Property}

/-- The line of a property up to its value. -/
def name (r : Rows) (p : Property) : List Char :=
  (nameText r.indent p.name).toList

/-- The line of a property. -/
def row (r : Rows) (p : Property) : List Char :=
  r.name p ++ r.value p

/-- An object of some properties, its closing brace indented by `closing`. -/
def text (r : Rows) (closing : String) (ps : List Property) : List Char :=
  if ps.isEmpty then ['{', '}']
  else '{' :: '\n' :: ([',', '\n'].intercalate (ps.map r.row) ++ '\n' :: (closing.toList ++ ['}']))

/-- The text of an object up to the line of the `i`-th of its properties. -/
def before (r : Rows) (ps : List Property) (i : Nat) : List Char :=
  '{' :: '\n' :: (ps.take i).flatMap fun p => r.row p ++ [',', '\n']

/-- The text of an object up to the value of its `i`-th property, which is `p`. -/
def upto (r : Rows) (ps : List Property) (i : Nat) (p : Property) : List Char :=
  r.before ps i ++ r.name p

theorem before_succ {i : Nat} {p : Property} (h : ps[i]? = some p) :
    r.before ps (i + 1) = r.before ps i ++ (r.row p ++ [',', '\n']) := by
  rw [before, List.take_add_one, h, List.flatMap_append]
  simp [before]

/-- Rows inside braces. -/
theorem chars_braced {rows : List (List Piece)} (h : rows.map chars = ps.map r.row)
    (closing : String) : chars (braced closing rows) = r.text closing ps := by
  have hempty : rows.isEmpty = ps.isEmpty := by
    have := congrArg List.isEmpty h
    simpa using this
  rw [braced, text, hempty]
  split
  · rfl
  · simp [chars_separated, h]

/-- The text of an object goes on with the value of the property. -/
theorem text_upto {i : Nat} {p : Property} (h : ps[i]? = some p) (closing : String) :
    r.upto ps i p ++ r.value p <+: r.text closing ps := by
  have hne : ps.isEmpty = false := by
    cases ps with
    | nil => cases h
    | cons => rfl
  have hrow : (ps.map r.row)[i]? = some (r.row p) := by rw [List.getElem?_map, h]; rfl
  refine ⟨((ps.map r.row).drop (i + 1)).flatMap ([',', '\n'] ++ ·)
    ++ '\n' :: (closing.toList ++ ['}']), ?_⟩
  rw [text, hne, intercalate_eq_append [',', '\n'] hrow]
  simp [upto, before, row, ← List.map_take, List.flatMap_map]

end Rows

/-! ## 2. The rows of a document template -/

/-- The rows of the fields of an object. -/
def fieldLines (indent : String) : Rows where
  indent := indent
  value p := (fieldLiteral p.hints).toList

/-- The rows of a section of a document template. -/
def sectionLines (config : Config) (indent : String) : Rows :=
  fieldLines (indent ++ config.indent ++ config.indent)

/-- The rows of a document template: the value of a section is the object of its properties. -/
def documentLines (config : Config) (root : Node) (indent : String) : Rows where
  indent := indent ++ config.indent
  value p :=
    match sectionOf? root p with
    | some child => (sectionLines config indent).text (indent ++ config.indent)
        (child.properties config.includeOptional)
    | none => (fieldLiteral p.hints).toList

section Text

variable {config : Config} {root : Node} {indent : String}

theorem map_chars_fieldRows (indent : String) (start : Int) (ps : List Property) :
    (fieldRows indent start ps).map chars = ps.map (fieldLines indent).row := by
  induction ps generalizing start with
  | nil => rfl
  | cons p rest ih =>
    rw [fieldRows, List.map_cons, List.map_cons, ih]
    simp [Rows.row, Rows.name, fieldLines]

/-- The value of a section is the object of its properties. -/
theorem value_documentLines_of_section {p : Property} {child : Node}
    (h : sectionOf? root p = some child) :
    (documentLines config root indent).value p
      = (sectionLines config indent).text (indent ++ config.indent)
          (child.properties config.includeOptional) := by
  simp only [documentLines, h]

/-- The number of the first field does not matter for the text of a section. -/
theorem chars_sectionValue (start : Int) (p : Property) :
    chars (sectionValue config root (indent ++ config.indent)
        (indent ++ config.indent ++ config.indent) start p)
      = (documentLines config root indent).value p := by
  simp only [sectionValue, documentLines]
  cases sectionOf? root p with
  | none => simp
  | some child => exact Rows.chars_braced (map_chars_fieldRows _ start _) _

theorem map_chars_documentRows (start : Int) (ps : List Property) :
    (documentRows config root (indent ++ config.indent) (indent ++ config.indent ++ config.indent)
        start false ps).map chars = ps.map (documentLines config root indent).row := by
  induction ps generalizing start with
  | nil => rfl
  | cons p rest ih =>
    obtain ⟨row, next, hrows, hrow⟩ := exists_documentRows_cons config root
      (indent ++ config.indent) (indent ++ config.indent ++ config.indent) start p rest
    rw [hrows, List.map_cons, List.map_cons, ih, hrow, chars_sectionValue]
    rfl

/-- **The text of a document template**, row by row. -/
theorem toList_documentTemplate (config : Config) (root : Node) (indent : String) :
    (render .plain (documentTemplate config .plain root indent)).toList
      = (documentLines config root indent).text indent
          (root.properties config.includeOptional) := by
  rw [toList_render]
  exact Rows.chars_braced (map_chars_documentRows 1 _) _

end Text

/-! ## 3. The walk along rows -/

namespace Rows

/-- The rows can be read: no name is empty, and all values are JSON. -/
structure Readable (r : Rows) (ps : List Property) : Prop where
  indent : IsIndentation r.indent
  name : ∀ p ∈ ps, p.name ≠ ""
  value : ∀ p ∈ ps, ∃ v, Written (r.value p) v

variable {r : Rows} {ps : List Property} {k : Nat} {levels : List Level} {start : List Char}

/-- The name of a property comes on the path. -/
theorem reached_name {before : List Char} (hk : 1 ≤ k) (hindent : IsIndentation r.indent)
    {p : Property} (hname : p.name ≠ "") (h : Reached k ⟨.object none :: levels, .name⟩ before) :
    Reached k ⟨.object (some p.name) :: levels, .value⟩ (before ++ r.name p) := by
  let label : Label :=
    ⟨⟨r.indent.toList, hindent.blank⟩, .ofText false p.name.toList, .none, .space⟩
  have hlabel : label.key.text ≠ [] ∧ label.mid.chars.length < k := by
    refine ⟨?_, hk⟩
    simpa [label, Quotation.ofText] using hname
  have := ((sound_walk k).labelCuts levels hlabel trivial before h).2
  simpa [label, Label.chars, Label.levels, Blanks.none, Blanks.space, Quotation.ofText, name,
    nameText, literal, quoted, Quotation.chars] using this

/-- **Before every row the walk has left the rows before it.** -/
theorem reached_before (hk : 1 ≤ k) (hps : r.Readable ps)
    (h : Reached k ⟨levels, .value⟩ start) : ∀ {i : Nat}, i ≤ ps.length →
    Reached k ⟨.object none :: levels, .name⟩ (start ++ r.before ps i)
  | 0, _ => by
    have hopen := ((sound_walk k).openObject levels _ h).2
    have := ((sound_walk k).blank _ (by decide : isJsonBlank '\n' = true) _ hopen).2
    simpa [before] using this
  | i + 1, hi => by
    have hmem : ps[i] ∈ ps := List.getElem_mem hi
    have hsucc := r.before_succ (List.getElem?_eq_getElem hi)
    obtain ⟨v, hv⟩ := hps.value _ hmem
    have hname := reached_name hk hps.indent (hps.name _ hmem)
      (reached_before hk hps h (Nat.le_of_succ_le hi))
    -- Whatever the value is, the comma behind it takes the name off the path.
    have hnext := ((sound_walk k).nextMember levels _ _ (hname.value hv)).2
    have := ((sound_walk k).blank _ (by decide : isJsonBlank '\n' = true) _ hnext).2
    simpa [hsucc, row] using this

/-- **Where the value of a row goes the walk has its name on the path.** -/
theorem reached_upto (hk : 1 ≤ k) (hps : r.Readable ps) (h : Reached k ⟨levels, .value⟩ start)
    {i : Nat} {p : Property} (hp : ps[i]? = some p) :
    Reached k ⟨.object (some p.name) :: levels, .value⟩ (start ++ r.upto ps i p) := by
  obtain ⟨hi, rfl⟩ := List.getElem?_eq_some_iff.mp hp
  have := reached_name hk hps.indent (hps.name _ (List.getElem_mem hi))
    (reached_before hk hps h (Nat.le_of_lt hi))
  simpa [upto] using this

end Rows

/-- The path of keys at a stage that the walk has reached. -/
theorem keyPath_of_reached {k : Nat} {s : Stage} {before : List Char} (h : Reached k s before) :
    keyPath before k false = pathOf s.levels := by
  refine keyPath_of_fits ?_
  have := h.tracks (p := s.place) s.levels_place
  rwa [Tracks, ← colonFollows_natCast before.length, s.levels_place] at this

/-! ## 4. The positions of values -/

/-- Behind `before` goes a value of the document template whose schema is `n`. -/
structure StandsAt (config : Config) (root : Node) (indent : String) (before value : List Char)
    (path : List String) (n : Node) : Prop where
  text : before ++ value <+: (render .plain (documentTemplate config .plain root indent)).toList
  keyPath : Cursor.keyPath before config.keyLookahead false = path
  navigate : root.navigate? path = some n

section Positions

variable {config : Config} {root : Node} {indent : String}

/-- The section of a property is its node, if that is an object. -/
theorem sectionOf?_of_mem {p : Property} {n : Node} (hroot : (Members.names root.children).Nodup)
    (hn : (p.name, n) ∈ root.children) (hobject : n.isObject = true) :
    sectionOf? root p = some n := by
  rw [sectionOf?, Members.find?_of_mem hroot hn]
  exact Option.filter_some_pos hobject

/-- The rows of a section can be read. -/
theorem readable_sectionLines (hindent : IsIndentation indent) {n : Node}
    (h : ∀ q ∈ n.properties config.includeOptional, q.name ≠ "" ∧ FitsType q) :
    (sectionLines config indent).Readable (n.properties config.includeOptional) where
  indent := isIndentation_append
    (isIndentation_append hindent (isIndentation_indent config)) (isIndentation_indent config)
  name q hq := (h q hq).1
  value q hq := ⟨_, (h q hq).2.written⟩

/-- The rows of a document template can be read. -/
theorem readable_documentLines (hindent : IsIndentation indent)
    (hmembers : ∀ p ∈ root.properties config.includeOptional,
      p.name ≠ "" ∧ (sectionOf? root p = none → FitsType p))
    (hsections : ∀ p ∈ root.properties config.includeOptional, ∀ child,
      sectionOf? root p = some child →
      ∀ q ∈ child.properties config.includeOptional, q.name ≠ "" ∧ FitsType q) :
    (documentLines config root indent).Readable (root.properties config.includeOptional) where
  indent := isIndentation_append hindent (isIndentation_indent config)
  name p hp := (hmembers p hp).1
  value p hp := by
    have hlevel1 := isIndentation_append hindent (isIndentation_indent config)
    have hlevel2 := isIndentation_append hlevel1 (isIndentation_indent config)
    obtain ⟨v, hv⟩ := @exists_written_sectionValue config root p
      (fun hnone => ⟨_, ((hmembers p hp).2 hnone).written⟩)
      fun child hchild q hq => ⟨_, (hsections p hp child hchild q hq).2.written⟩
    refine ⟨v, ?_⟩
    rw [← chars_sectionValue 1]
    exact hv _ _ 1 hlevel1 hlevel2

/-- **At the values of a document template the path of keys leads to their schemas**: behind the
name of a property of the root it is that name, behind the name of a property of a section the name
of the section comes first. -/
theorem paths_in_template (hindent : IsIndentation indent)
    (hroot : (Members.names root.children).Nodup)
    (hmembers : ∀ p ∈ root.properties config.includeOptional,
      p.name ≠ "" ∧ (sectionOf? root p = none → FitsType p))
    (hsections : ∀ p ∈ root.properties config.includeOptional, ∀ child,
      sectionOf? root p = some child → (Members.names child.children).Nodup ∧
        ∀ q ∈ child.properties config.includeOptional, q.name ≠ "" ∧ FitsType q) :
    ∀ i p, (root.properties config.includeOptional)[i]? = some p →
      ∃ n, (p.name, n) ∈ root.children ∧ p.hints = n.hints ∧
        StandsAt config root indent
          ((documentLines config root indent).upto (root.properties config.includeOptional) i p)
          ((documentLines config root indent).value p) [p.name] n ∧
        (n.isObject = true → ∀ j q, (n.properties config.includeOptional)[j]? = some q →
          ∃ inner, (q.name, inner) ∈ n.children ∧ q.hints = inner.hints ∧
            StandsAt config root indent
              ((documentLines config root indent).upto (root.properties config.includeOptional) i p
                ++ (sectionLines config indent).upto (n.properties config.includeOptional) j q)
              (fieldLiteral inner.hints).toList [p.name, q.name] inner) := by
  intro i p hp
  have hmem := List.mem_of_getElem? hp
  obtain ⟨n, hn, hhints⟩ := exists_child_of_mem_properties hmem
  have hchild := Node.child?_of_mem hroot hn
  have hreadable := readable_documentLines hindent hmembers
    fun p hp child hchild => (hsections p hp child hchild).2
  have hmember := Rows.reached_upto config.keyLookahead_pos hreadable (Reached.start _) hp
  have htext := (documentLines config root indent).text_upto hp indent
  rw [← toList_documentTemplate] at htext
  refine ⟨n, hn, hhints, ⟨htext, keyPath_of_reached hmember, ?_⟩, ?_⟩
  · simp [Node.navigate?_cons, hchild]
  · intro hobject j q hq
    have hsection := sectionOf?_of_mem hroot hn hobject
    obtain ⟨hnames, hfields⟩ := hsections p hmem n hsection
    obtain ⟨inner, hinner, hqhints⟩ := exists_child_of_mem_properties (List.mem_of_getElem? hq)
    -- The rows of the section start where its own value is awaited.
    have hfield := Rows.reached_upto config.keyLookahead_pos
      (readable_sectionLines hindent hfields) hmember hq
    have hinside := (sectionLines config indent).text_upto hq (indent ++ config.indent)
    rw [← value_documentLines_of_section hsection] at hinside
    refine ⟨inner, hinner, hqhints, ⟨?_, keyPath_of_reached hfield, ?_⟩⟩
    · rw [← hqhints, List.append_assoc]
      exact ((List.prefix_append_right_inj _).mpr hinside).trans htext
    · simp [Node.navigate?_cons, hchild, Node.child?_of_mem hnames hinner]

/-- In the document of the sample the field of the section lies under both names, and the number
behind the section under its own. -/
theorem paths_in_template_sampleRoot :
    StandsAt {} sampleRoot "\t" "\x7b\n\t  \"metadata\": \x7b\n\t    \"name\": ".toList
        "\"\"".toList ["metadata", "name"] (.scalar ⟨["string"], none, none, none, false, none⟩)
      ∧ StandsAt {} sampleRoot "\t"
        "\x7b\n\t  \"metadata\": \x7b\n\t    \"name\": \"\"\n\t  \x7d,\n\t  \"replicas\": ".toList
        "2".toList ["replicas"]
        (.scalar ⟨["integer"], none, none, some (.int 2), false, none⟩) := by
  have hindent : IsIndentation "\t" := List.forall_mem_singleton.mpr (by decide)
  have hblank : ∀ p : Property, p.value = none → FitsType p :=
    fun p h => ⟨by simp [h], by simp [h]⟩
  have hmembers : ∀ p ∈ sampleRoot.properties true,
      p.name ≠ "" ∧ (sectionOf? sampleRoot p = none → FitsType p) := by
    intro p hp
    rcases List.mem_cons.mp hp with rfl | hp
    · exact ⟨by decide, fun _ => hblank _ rfl⟩
    · cases List.mem_singleton.mp hp
      refine ⟨by decide, fun _ => ⟨?_, ?_⟩⟩
      · rintro v ⟨⟩
        exact .int 2
      · rintro v ⟨⟩
        refine Or.inr ?_
        intro hstr
        cases hstr
  have hsections : ∀ p ∈ sampleRoot.properties true, ∀ child, sectionOf? sampleRoot p = some child →
      (Members.names child.children).Nodup ∧
        ∀ q ∈ child.properties true, q.name ≠ "" ∧ FitsType q := by
    intro p hp child hchild
    rcases List.mem_cons.mp hp with rfl | hp
    · cases hchild
      refine ⟨by decide, ?_⟩
      intro q hq
      cases List.mem_singleton.mp hq
      exact ⟨by decide, hblank _ rfl⟩
    · cases List.mem_singleton.mp hp
      cases hchild
  have h := @paths_in_template {} sampleRoot "\t" hindent (by decide) hmembers hsections
  obtain ⟨n, hn, -, -, hfields⟩ := h 0 _ rfl
  obtain ⟨m, hm, -, hnumber, -⟩ := h 1 _ rfl
  cases Members.find?_of_mem (by decide) hn
  cases Members.find?_of_mem (by decide) hm
  obtain ⟨inner, hinner, -, hfield⟩ := hfields rfl 0 _ rfl
  cases List.mem_singleton.mp hinner
  exact ⟨hfield, hnumber⟩

end Positions

end SchemaAssist.Template
