/-
# Templates are read back

Without markup a template is the text of a JSON value.  Its rows are the texts of members
(`WrittenMember`), whatever indents them, and rows inside braces are the text of the object with
these members (`written_braced`).  From that follow the values of all templates:

* `written_objectTemplate`: an object template is the object of the properties that it shows;
* `written_documentTemplate`: a document template is the object of the properties of its root, the
  sections being objects of their own.

Both leave open what value a property has, so they hold for literals that stand for something else
than the suggested value too; if two rows have the same name the last one counts.
`templates_read_back` is the case in which no name is required twice and every value fits its tag.
-/
import Mathlib.Data.List.Forall2
import SchemaAssist.Proofs.Template.Literal
import SchemaAssist.Template.Member

namespace SchemaAssist.Template

open SchemaAssist.Json SchemaAssist.Schema SchemaAssist.Text

/-! ## 1. The characters of a template -/

/-- The characters of a template without markup. -/
def chars (pieces : List Piece) : List Char :=
  pieces.flatMap fun piece => (piece.render .plain).toList

theorem toList_render (pieces : List Piece) : (render .plain pieces).toList = chars pieces := by
  simp [render, chars, List.flatMap_map]

@[simp] theorem chars_nil : chars [] = [] := rfl

@[simp] theorem chars_text (s : String) (rest : List Piece) :
    chars (.text s :: rest) = s.toList ++ chars rest := rfl

@[simp] theorem chars_field (index : Int) (s : String) (rest : List Piece) :
    chars (.field index s :: rest) = s.toList ++ chars rest := rfl

@[simp] theorem chars_finalCursor (rest : List Piece) :
    chars (.finalCursor :: rest) = chars rest := rfl

@[simp] theorem chars_append (a b : List Piece) : chars (a ++ b) = chars a ++ chars b :=
  List.flatMap_append

/-! ## 2. Rows -/

/-- The string is an indentation: spaces and tabs. -/
def IsIndentation (indent : String) : Prop :=
  ∀ c ∈ indent.toList, isIndent c = true

theorem IsIndentation.blank {indent : String} (h : IsIndentation indent) :
    ∀ c ∈ indent.toList, isJsonBlank c = true :=
  fun c hc => isJsonBlank_of_isIndent (h c hc)

theorem isIndentation_append {a b : String} (ha : IsIndentation a) (hb : IsIndentation b) :
    IsIndentation (a ++ b) := by
  rw [IsIndentation, String.toList_append]
  exact List.forall_mem_append.mpr ⟨ha, hb⟩

theorem isIndentation_indent (config : Config) : IsIndentation config.indent := by
  intro c hc
  rw [Config.indent, String.toList_ofList] at hc
  rw [List.eq_of_mem_replicate hc]
  decide

/-- A name and its colon in front of a value. -/
theorem writtenMember_nameText {indent : String} (hindent : IsIndentation indent) (name : String)
    {text : List Char} {v : Value} (h : Written text v) :
    WrittenMember ((nameText indent name).toList ++ text) (name, v) := by
  have := (WrittenMember.intro false name blank_space h).blanks hindent.blank
  simpa [nameText, literal] using this

/-- Rows one on a line. -/
theorem writtenMembers_separated {rows : List (List Piece)} {ms : Members} {blanks : List Char}
    (hblanks : ∀ c ∈ blanks, isJsonBlank c = true)
    (h : List.Forall₂ (fun row m => WrittenMember (chars row) m) rows ms) (hne : rows ≠ []) :
    WrittenMembers (chars (separated ",\n" rows) ++ blanks) ms := by
  induction h with
  | nil => exact absurd rfl hne
  | @cons row m rows ms hrow hrows ih =>
    cases hrows with
    | nil => exact .last hrow hblanks
    | cons hnext hothers =>
      have := WrittenMembers.cons hrow ((ih (by simp)).blanks blank_lineFeed)
      simpa [separated] using this

/-- **Rows inside braces are the object of their members.** -/
theorem written_braced {indent : String} (hindent : IsIndentation indent)
    {rows : List (List Piece)} {ms : Members}
    (h : List.Forall₂ (fun row m => WrittenMember (chars row) m) rows ms) :
    Written (chars (braced indent rows)) (.obj (Members.ofPairs ms)) := by
  unfold braced
  cases h with
  | nil => exact written_emptyObject (List.forall_mem_nil _)
  | @cons row m rows ms hrow hrows =>
    have hclose : ∀ c ∈ '\n' :: indent.toList, isJsonBlank c = true :=
      List.forall_mem_cons.mpr ⟨by decide, hindent.blank⟩
    have hinside := writtenMembers_separated hclose (.cons hrow hrows) (by simp)
    have := (hinside.blanks blank_lineFeed).braced
    simpa using this

/-! ## 3. Fields -/

/-- A member for each property, with a value of its own. -/
def membersOf (value : Property → Value) (properties : List Property) : Members :=
  properties.map fun p => (p.name, value p)

theorem forall₂_fieldRows {indent : String} (hindent : IsIndentation indent)
    {value : Property → Value} : ∀ {properties : List Property} (start : Int),
    (∀ p ∈ properties, Written (fieldLiteral p.hints).toList (value p)) →
    List.Forall₂ (fun row m => WrittenMember (chars row) m) (fieldRows indent start properties)
      (membersOf value properties)
  | [], _, _ => .nil
  | p :: rest, start, h => by
    have hp := writtenMember_nameText hindent p.name (h p List.mem_cons_self)
    have hrest := forall₂_fieldRows hindent (start + 1)
      fun q hq => h q (List.mem_cons_of_mem p hq)
    exact .cons (by simpa using hp) hrest

/-- **An object template is the object of the properties that it shows.** -/
theorem written_objectTemplate (config : Config) (n : Node) {indent : String}
    (hindent : IsIndentation indent) (includeOptional : Bool) {value : Property → Value}
    (h : ∀ p ∈ n.properties includeOptional, Written (fieldLiteral p.hints).toList (value p)) :
    Written (chars (objectTemplate config n indent includeOptional))
      (.obj (Members.ofPairs (membersOf value (n.properties includeOptional)))) :=
  written_braced hindent
    (forall₂_fieldRows (isIndentation_append hindent (isIndentation_indent config)) 1 h)

/-! ## 4. Documents -/

/-- The schema of a property of the root, if it is an object: the property is a section then. -/
def sectionOf? (root : Node) (p : Property) : Option Node :=
  (Members.find? p.name root.children).filter Node.isObject

/-- What a row of a document template holds behind its name, the cursor apart. -/
def sectionValue (config : Config) (root : Node) (level1 level2 : String) (start : Int)
    (p : Property) : List Piece :=
  match sectionOf? root p with
  | some child => braced level1 (fieldRows level2 start (child.properties config.includeOptional))
  | none => [.field start (fieldLiteral p.hints)]

/-- A section row without the cursor is its name and an object with the fields. -/
theorem chars_sectionRow (level1 level2 : String) (start : Int) (p : Property)
    (inner : List Property) :
    chars (sectionRow level1 level2 start false p inner)
      = (nameText level1 p.name).toList
          ++ chars (braced level1 (fieldRows level2 start inner)) := by
  cases inner with
  | nil => simp [sectionRow, braced, fieldRows]
  | cons q rest => simp [sectionRow, braced, fieldRows, fields]

/-- Without a cursor to place, a document template has a row for each property. -/
theorem exists_documentRows_cons (config : Config) (root : Node) (level1 level2 : String)
    (start : Int) (p : Property) (rest : List Property) : ∃ row next,
    documentRows config root level1 level2 start false (p :: rest)
        = row :: documentRows config root level1 level2 next false rest
      ∧ chars row = (nameText level1 p.name).toList
          ++ chars (sectionValue config root level1 level2 start p) := by
  -- The number of the next field depends on how many the section has, so it is not named.
  rw [documentRows, sectionValue, sectionOf?]
  cases Members.find? p.name root.children with
  | none => exact ⟨_, _, rfl, by simp⟩
  | some child =>
    cases child with
    | object => exact ⟨_, _, rfl, chars_sectionRow level1 level2 start p _⟩
    | scalar | array => exact ⟨_, _, rfl, by simp [Option.filter, Node.isObject]⟩

/-- What a row holds behind its name is the text of a value if all its literals are, and the value
depends on neither the indentation nor the number of the first field. -/
theorem exists_written_sectionValue {config : Config} {root : Node} {p : Property}
    (hfield : sectionOf? root p = none → ∃ v, Written (fieldLiteral p.hints).toList v)
    (hsection : ∀ child, sectionOf? root p = some child →
      ∀ q ∈ child.properties config.includeOptional, ∃ v, Written (fieldLiteral q.hints).toList v) :
    ∃ v, ∀ level1 level2 start, IsIndentation level1 → IsIndentation level2 →
      Written (chars (sectionValue config root level1 level2 start p)) v := by
  unfold sectionValue
  cases h : sectionOf? root p with
  | none =>
    obtain ⟨v, hv⟩ := hfield h
    exact ⟨v, fun _ _ _ _ _ => by simpa using hv⟩
  | some child =>
    have hliteral := hsection child h
    choose! value hvalue using hliteral
    exact ⟨_, fun _ _ start hlevel1 hlevel2 =>
      written_braced hlevel1 (forall₂_fieldRows hlevel2 start hvalue)⟩

theorem forall₂_documentRows {config : Config} {root : Node} {level1 level2 : String}
    (hlevel1 : IsIndentation level1) {value : Property → Value} :
    ∀ {properties : List Property} (start : Int),
    (∀ p ∈ properties, ∀ start,
      Written (chars (sectionValue config root level1 level2 start p)) (value p)) →
    List.Forall₂ (fun row m => WrittenMember (chars row) m)
      (documentRows config root level1 level2 start false properties) (membersOf value properties)
  | [], _, _ => .nil
  | p :: rest, start, h => by
    obtain ⟨row, next, hrows, hrow⟩ :=
      exists_documentRows_cons config root level1 level2 start p rest
    have hp := writtenMember_nameText hlevel1 p.name (h p List.mem_cons_self start)
    have hrest := forall₂_documentRows hlevel1 next fun q hq => h q (List.mem_cons_of_mem p hq)
    rw [hrows]
    exact .cons (by rwa [hrow]) hrest

/-- **A document template is the object of the properties of its root.** -/
theorem written_documentTemplate (config : Config) (root : Node) {indent : String}
    (hindent : IsIndentation indent) {value : Property → Value}
    (h : ∀ p ∈ root.properties config.includeOptional, ∀ level1 level2 start,
      IsIndentation level1 → IsIndentation level2 →
      Written (chars (sectionValue config root level1 level2 start p)) (value p)) :
    Written (chars (documentTemplate config .plain root indent))
      (.obj (Members.ofPairs (membersOf value (root.properties config.includeOptional)))) := by
  have hlevel1 := isIndentation_append hindent (isIndentation_indent config)
  have hlevel2 := isIndentation_append hlevel1 (isIndentation_indent config)
  apply written_braced hindent
  exact forall₂_documentRows hlevel1 1 fun p hp start => h p hp _ _ start hlevel1 hlevel2

/-! ## 5. Reading back -/

/-- No property is listed twice, and none is required twice. -/
structure HasDistinctNames (n : Node) : Prop where
  properties : (Members.names n.children).Nodup
  required : n.requiredNames.Nodup

theorem names_requiredProperties (n : Node) :
    (n.requiredProperties.map Property.name).Sublist n.requiredNames := by
  unfold Node.requiredProperties
  induction n.requiredNames with
  | nil => exact .slnil
  | cons name rest ih =>
    cases h : Members.find? name n.children with
    | none => simpa [h] using ih.cons name
    | some child => simpa [h] using ih

theorem names_recommendedProperties (n : Node) :
    (n.recommendedProperties.map Property.name).Sublist (Members.names n.children) := by
  have hmap : n.recommendedProperties.map Property.name = (n.children.filter fun m =>
      !n.requiredNames.contains m.1 && m.2.hints.hasRecommended).map Prod.fst := by
    simp [Node.recommendedProperties, Function.comp_def]
  rw [hmap]
  exact List.filter_sublist.map Prod.fst

/-- An object template shows no property twice. -/
theorem HasDistinctNames.nodup_properties {n : Node} (h : HasDistinctNames n)
    (includeOptional : Bool) : ((n.properties includeOptional).map Property.name).Nodup := by
  rw [Node.properties, List.map_append, List.nodup_append]
  have hrequired := (names_requiredProperties n).nodup h.required
  cases includeOptional with
  | false => exact ⟨hrequired, .nil, by simp⟩
  | true =>
    refine ⟨hrequired, (names_recommendedProperties n).nodup h.properties, ?_⟩
    -- A recommended property is not among the required names.
    rintro name hname other hother rfl
    have hname := (names_requiredProperties n).subset hname
    simp only [if_true, Node.recommendedProperties, List.map_map, List.mem_map,
      List.mem_filter] at hother
    obtain ⟨m, ⟨-, hm⟩, rfl⟩ := hother
    have hrequired : m.1 ∈ n.requiredNames := hname
    simp [hrequired] at hm

theorem HasDistinctNames.ofPairs_membersOf {n : Node} (h : HasDistinctNames n)
    (includeOptional : Bool) (value : Property → Value) :
    Members.ofPairs (membersOf value (n.properties includeOptional))
      = membersOf value (n.properties includeOptional) := by
  apply Members.ofPairs_of_nodup
  simpa [Members.names, membersOf, Function.comp_def] using h.nodup_properties includeOptional

/-- The value that a template gives a property: the suggested one, or the blank of its type. -/
def shownValue (p : Property) : Value :=
  p.value.getD (blankValue p.hints.types.head?)

/-- The object of the properties that the templates of a node show. -/
def shownObject (config : Config) (n : Node) : Value :=
  .obj (membersOf shownValue (n.properties config.includeOptional))

/-- The value that a document template gives a property of the root: a section is the object of its
own properties. -/
def shownSection (config : Config) (root : Node) (p : Property) : Value :=
  match sectionOf? root p with
  | some child => shownObject config child
  | none => shownValue p

/-- The value suggested for the property, if there is one, can be read back and fits its type. -/
structure FitsType (p : Property) : Prop where
  /-- Its numbers are integers, and no object in it repeats a name. -/
  exact : ∀ v, p.value = some v → v.Exact
  fits : ∀ v, p.value = some v → Fits p.hints.types.head? v

theorem FitsType.written {p : Property} (h : FitsType p) :
    Written (fieldLiteral p.hints).toList (shownValue p) := by
  unfold fieldLiteral shownValue Property.value
  cases hv : p.hints.suggested with
  | none => exact written_blank _
  | some v => exact written_literalOf (h.exact v hv) (h.fits v hv)

/-- **The templates of a root are read back** as the objects of the properties that they show. -/
theorem templates_read_back {config : Config} {root : Node} {indent : String}
    (hindent : IsIndentation indent) (hroot : HasDistinctNames root)
    (hfits : ∀ p ∈ root.properties config.includeOptional, FitsType p) :
    Value.read? (render .plain
        (objectTemplate config root indent config.includeOptional)).toList
      = some (.obj (membersOf shownValue (root.properties config.includeOptional)))
    ∧ ((∀ p ∈ root.properties config.includeOptional, ∀ child, sectionOf? root p = some child →
          HasDistinctNames child ∧ ∀ q ∈ child.properties config.includeOptional, FitsType q) →
        Value.read? (render .plain (documentTemplate config .plain root indent)).toList
          = some (.obj (membersOf (shownSection config root)
              (root.properties config.includeOptional)))) := by
  constructor
  · have h := written_objectTemplate config root hindent config.includeOptional
      fun p hp => (hfits p hp).written
    rw [hroot.ofPairs_membersOf] at h
    rw [toList_render, h.read]
  · intro hsections
    have hrows : ∀ p ∈ root.properties config.includeOptional, ∀ level1 level2 start,
        IsIndentation level1 → IsIndentation level2 →
        Written (chars (sectionValue config root level1 level2 start p))
          (shownSection config root p) := by
      intro p hp level1 level2 start hlevel1 hlevel2
      unfold sectionValue shownSection
      cases hsection : sectionOf? root p with
      | none => simpa using (hfits p hp).written
      | some child =>
        obtain ⟨hchild, hinner⟩ := hsections p hp child hsection
        have h := written_braced hlevel1
          (forall₂_fieldRows hlevel2 start fun q hq => (hinner q hq).written)
        rwa [hchild.ofPairs_membersOf] at h
    have h := written_documentTemplate config root hindent hrows
    rw [hroot.ofPairs_membersOf] at h
    rw [toList_render, h.read]

/-- A root with a required section and a recommended number. -/
def sampleRoot : Node :=
  .object ⟨["object"], none, none, none, false, none⟩
    [("metadata", .object ⟨["object"], none, none, none, false, none⟩
      [("name", .scalar ⟨["string"], none, none, none, false, none⟩)] ["name"]),
     ("replicas", .scalar ⟨["integer"], none, none, some (.int 2), false, none⟩)]
    ["metadata"]

/-- As a value the section is empty, and in a document it has its own property. -/
theorem templates_read_back_sampleRoot :
    Value.read? (render .plain (objectTemplate {} sampleRoot "\t" true)).toList
        = some (.obj [("metadata", .obj []), ("replicas", .int 2)])
      ∧ Value.read? (render .plain (documentTemplate {} .plain sampleRoot "\t")).toList
        = some (.obj [("metadata", .obj [("name", .str "")]), ("replicas", .int 2)]) := by
  have hindent : IsIndentation "\t" := List.forall_mem_singleton.mpr (by decide)
  have hblank : ∀ p : Property, p.value = none → FitsType p :=
    fun p h => ⟨by simp [h], by simp [h]⟩
  have hfits : ∀ p ∈ sampleRoot.properties true, FitsType p := by
    intro p hp
    rcases List.mem_cons.mp hp with rfl | hp
    · exact hblank _ rfl
    · cases List.mem_singleton.mp hp
      refine ⟨?_, ?_⟩
      · rintro v ⟨⟩
        exact .int 2
      · rintro v ⟨⟩
        refine Or.inr ?_
        intro hstr
        cases hstr
  have hsections : ∀ p ∈ sampleRoot.properties true, ∀ child, sectionOf? sampleRoot p = some child →
      HasDistinctNames child ∧ ∀ q ∈ child.properties true, FitsType q := by
    intro p hp child hchild
    rcases List.mem_cons.mp hp with rfl | hp
    · cases hchild
      refine ⟨⟨by decide, by decide⟩, ?_⟩
      intro q hq
      cases List.mem_singleton.mp hq
      exact hblank _ rfl
    · cases List.mem_singleton.mp hp
      cases hchild
  obtain ⟨hobject, hdocument⟩ :=
    @templates_read_back {} sampleRoot "\t" hindent ⟨by decide, by decide⟩ hfits
  exact ⟨hobject, hdocument hsections⟩

end SchemaAssist.Template
