/-
# What items insert is JSON

Without markup every item inserts well-formed JSON of the kind that its position needs, whatever the
document looks like: an object at the root and for the templates of an object, members with the name
of their property for sections and properties, the empty array for an array, and for an enum the
members of the enum.

The texts are put together from literals, so all that is asked of the schema tree is that the
literals are well-formed and that the members of enums can be read back (`SoundHints`).
`items_insert_json` goes through the kinds of positions.
-/
import SchemaAssist.Completion.Suggest
import SchemaAssist.Proofs.Schema.Walk
import SchemaAssist.Proofs.Template.Member

namespace SchemaAssist.Completion

open SchemaAssist.Cursor SchemaAssist.Json SchemaAssist.Schema SchemaAssist.Template
  SchemaAssist.Text

/-! ## 1. What an item inserts -/

namespace Item

/-- The text of the item is that of the value. -/
def Inserts (item : Item) (v : Value) : Prop :=
  Value.read? item.insertText.toList = some v

/-- The text of the item is that of an object. -/
def InsertsObject (item : Item) : Prop :=
  ∃ ms, item.Inserts (.obj ms)

/-- Between braces the text of the item is that of an object with a single member of this name. -/
def InsertsMember (item : Item) (name : String) : Prop :=
  ∃ v, Value.read? ("\x7b" ++ item.insertText ++ "\x7d").toList = some (.obj [(name, v)])

theorem insertsMember_of_written {item : Item} {name : String} {v : Value}
    (h : WrittenMember item.insertText.toList (name, v)) : item.InsertsMember name := by
  have hmembers := WrittenMembers.last h (List.forall_mem_nil _)
  have hsingle : Members.ofPairs [(name, v)] = [(name, v)] := rfl
  have := hmembers.braced.read
  rw [hsingle] at this
  exact ⟨v, by simpa using this⟩

end Item

/-! ## 2. Templates -/

/-- The literals of the node are well-formed. -/
structure SoundHints (h : Hints) : Prop where
  suggested : ∀ v, h.suggested = some v → Insertable h.types.head? v
  enum : ∀ values, h.enum = some values → ∀ v ∈ values, v.Exact

theorem SoundHints.exists_written {h : Hints} (hsound : SoundHints h) :
    ∃ v, Written (fieldLiteral h).toList v :=
  exists_written_literalOf hsound.suggested

/-- All nodes of a tree have well-formed literals. -/
def SoundTree (root : Node) : Prop :=
  ∀ n : Node, n.Within root → SoundHints n.hints

section Templates

variable {root n : Node} {indent : String}

theorem soundTree_scalar {h : Hints} (hsound : SoundHints h) : SoundTree (.scalar h) := by
  intro m hm
  cases hm with
  | root => exact hsound
  | property hchild => cases hchild

theorem soundTree_object {h : Hints} {properties : List (String × Node)} {required : List String}
    (hsound : SoundHints h) (hproperties : ∀ m ∈ properties, SoundTree m.2) :
    SoundTree (.object h properties required) := by
  intro m hm
  cases hm with
  | root => exact hsound
  | property hchild hm => exact hproperties _ hchild m hm

theorem SoundTree.within (h : SoundTree root) (hn : n.Within root) : SoundTree n :=
  fun m hm => h m (hm.trans hn)

theorem SoundTree.child (h : SoundTree n) {name : String} {child : Node}
    (hchild : (name, child) ∈ n.children) : SoundTree child :=
  h.within (.property hchild .root)

theorem SoundTree.exists_written_property (h : SoundTree n) {includeOptional : Bool}
    {p : Property} (hp : p ∈ n.properties includeOptional) :
    ∃ v, Written (fieldLiteral p.hints).toList v := by
  obtain ⟨child, hchild, hhints⟩ := exists_child_of_mem_properties hp
  rw [hhints]
  exact (h.child hchild child .root).exists_written

/-- An object template is an object. -/
theorem SoundTree.written_objectTemplate (h : SoundTree n) (config : Config)
    (hindent : IsIndentation indent) (includeOptional : Bool) :
    ∃ ms, Written (chars (objectTemplate config n indent includeOptional)) (.obj ms) := by
  have hliteral := fun p (hp : p ∈ n.properties includeOptional) => h.exists_written_property hp
  choose! value hvalue using hliteral
  exact ⟨_, Template.written_objectTemplate config n hindent includeOptional hvalue⟩

/-- A document template is an object. -/
theorem SoundTree.written_documentTemplate (h : SoundTree root) (config : Config)
    (hindent : IsIndentation indent) :
    ∃ ms, Written (chars (documentTemplate config .plain root indent)) (.obj ms) := by
  have hsections : ∀ p ∈ root.properties config.includeOptional, ∃ v, ∀ level1 level2 start,
      IsIndentation level1 → IsIndentation level2 →
      Written (chars (sectionValue config root level1 level2 start p)) v := by
    intro p hp
    refine exists_written_sectionValue (fun _ => h.exists_written_property hp) ?_
    intro child hsection q hq
    rw [sectionOf?, Option.filter_eq_some_iff] at hsection
    exact (h.child (Members.mem_of_find? hsection.1)).exists_written_property hq
  -- The value of a row depends on neither its indentation nor its number, so it can be chosen.
  choose! value hvalue using hsections
  exact ⟨_, Template.written_documentTemplate config root hindent hvalue⟩

/-- An array template is the empty array. -/
theorem written_arrayTemplate (config : Config) (hindent : IsIndentation indent) :
    Written (chars (arrayTemplate config indent)) (.arr []) := by
  have hblank : ∀ c ∈ '\n' :: (indent.toList ++ (config.indent.toList ++ '\n' :: indent.toList)),
      isJsonBlank c = true := by
    have hlevel := (isIndentation_indent config).blank
    have hbreak : isJsonBlank '\n' = true := by decide
    simp only [List.forall_mem_cons, List.forall_mem_append]
    exact ⟨hbreak, hindent.blank, hlevel, hbreak, hindent.blank⟩
  simpa [arrayTemplate] using written_emptyArray hblank

theorem writtenMember_name (name : String) {text : List Char} {v : Value} (h : Written text v) :
    WrittenMember ((nameText "" name).toList ++ text) (name, v) := by
  have hempty : IsIndentation "" := by
    intro c hc
    cases hc
  exact writtenMember_nameText hempty name h

/-- A section is a member with its name. -/
theorem SoundTree.written_sectionTemplate (h : SoundTree n) (config : Config) (name : String)
    (hindent : IsIndentation indent) :
    ∃ v, WrittenMember (chars (sectionTemplate config name n indent)) (name, v) := by
  obtain ⟨ms, hms⟩ := h.written_objectTemplate config hindent config.includeOptional
  exact ⟨_, writtenMember_name name hms⟩

/-- A member template is a member with its name. -/
theorem SoundTree.written_memberTemplate (h : SoundTree n) (config : Config) (name : String)
    (hindent : IsIndentation indent) :
    ∃ v, WrittenMember (chars (memberTemplate config name n indent)) (name, v) := by
  unfold memberTemplate
  split
  · exact h.written_sectionTemplate config name hindent
  · exact ⟨_, writtenMember_name name (written_arrayTemplate config hindent)⟩
  · obtain ⟨v, hv⟩ := (h n .root).exists_written
    have := writtenMember_name name hv
    exact ⟨v, by simpa [valueTemplate] using this⟩

end Templates

/-! ## 3. Items -/

section Items

variable {e : Engine} {root n : Node} {indent : String}

theorem toList_spell (hplain : e.markup = .plain) (pieces : List Piece) :
    (e.spell pieces).toList = chars pieces := by
  rw [Engine.spell, hplain, toList_render]

/-- The item for the document inserts an object. -/
theorem documentItem_insertsObject (hplain : e.markup = .plain) (h : SoundTree root)
    (hindent : IsIndentation indent) : (e.documentItem root indent).InsertsObject := by
  obtain ⟨ms, hms⟩ := h.written_documentTemplate e.config hindent
  refine ⟨ms, ?_⟩
  rw [Item.Inserts, Engine.documentItem, toList_spell hplain, hplain]
  exact hms.read

/-- The item for a section inserts a member with its name. -/
theorem sectionItem_insertsMember (hplain : e.markup = .plain) (h : SoundTree n) (name : String)
    (hindent : IsIndentation indent) : (e.sectionItem indent name n).InsertsMember name := by
  have hmember : ∃ v, WrittenMember (e.sectionItem indent name n).insertText.toList (name, v) := by
    rw [Engine.sectionItem, toList_spell hplain]
    split
    · exact h.written_sectionTemplate e.config name hindent
    · exact h.written_memberTemplate e.config name hindent
  obtain ⟨v, hv⟩ := hmember
  exact Item.insertsMember_of_written hv

/-- The item for a property inserts a member with its name. -/
theorem propertyItem_insertsMember (hplain : e.markup = .plain) (h : SoundTree n) (name : String)
    (required : Bool) (hindent : IsIndentation indent) :
    (e.propertyItem indent name n required).InsertsMember name := by
  obtain ⟨v, hv⟩ := h.written_memberTemplate e.config name hindent
  refine Item.insertsMember_of_written (v := v) ?_
  rwa [Engine.propertyItem, toList_spell hplain]

/-- The items for objects insert objects. -/
theorem objectItems_insertObject (hplain : e.markup = .plain) (h : SoundTree n)
    (hindent : IsIndentation indent) : ∀ item ∈ e.objectItems n indent, item.InsertsObject := by
  have hfull : (e.objectItem n indent).InsertsObject := by
    obtain ⟨ms, hms⟩ := h.written_objectTemplate e.config hindent e.config.includeOptional
    refine ⟨ms, ?_⟩
    rw [Item.Inserts, Engine.objectItem, toList_spell hplain]
    exact hms.read
  have hminimal : (e.minimalItem n indent).InsertsObject := by
    obtain ⟨ms, hms⟩ := h.written_objectTemplate e.config hindent false
    refine ⟨ms, ?_⟩
    rw [Item.Inserts, Engine.minimalItem, toList_spell hplain]
    exact hms.read
  intro item hitem
  rw [Engine.objectItems] at hitem
  split at hitem
  · rw [List.mem_singleton.mp hitem]
    exact hfull
  · simp only [List.mem_cons, List.not_mem_nil, or_false] at hitem
    rcases hitem with rfl | rfl
    · exact hfull
    · exact hminimal

/-- The item for an array inserts the empty array. -/
theorem arrayItem_inserts (hplain : e.markup = .plain) (hindent : IsIndentation indent) :
    (e.arrayItem indent).Inserts (.arr []) := by
  rw [Item.Inserts, Engine.arrayItem, toList_spell hplain]
  exact (written_arrayTemplate e.config hindent).read

/-- The item for a member of an enum inserts that member. -/
theorem enumItem_inserts {v : Value} (h : v.Exact) (documentation : String) (position : Nat) :
    (Engine.enumItem documentation v position).Inserts v := by
  have := (h.written Layout.spaces_spaced 0).read
  simpa [Item.Inserts, Engine.enumItem, Value.text] using this

/-- One item for each member of an enum, in their order. -/
theorem forall₂_enumItems (documentation : String) : ∀ {values : List Value} (start : Nat),
    (∀ v ∈ values, v.Exact) →
    List.Forall₂ (fun v item => item.Inserts v) values
      ((values.zipIdx start).map fun (v, position) => Engine.enumItem documentation v position)
  | [], _, _ => .nil
  | v :: rest, start, h => by
    have hrest := forall₂_enumItems documentation (start + 1)
      fun w hw => h w (List.mem_cons_of_mem v hw)
    exact .cons (enumItem_inserts (h v List.mem_cons_self) documentation start) hrest

end Items

/-! ## 4. Positions -/

/-- At the root: the document, an object, and a member for each property of the root. -/
def InsertedAtRoot (root : Node) (items : List Item) : Prop :=
  ∃ document sections, items = document :: sections ∧ document.InsertsObject
    ∧ List.Forall₂ (fun m item => item.InsertsMember m.1) root.children sections

/-- At a member position: a member for each property of the node. -/
def InsertedAtMember (n : Node) (items : List Item) : Prop :=
  List.Forall₂ (fun m item => item.InsertsMember m.1) n.children items

/-- What the templates for the value of a node insert: objects for an object, the empty array for an
array. -/
def InsertedForKind (n : Node) (items : List Item) : Prop :=
  match n with
  | .object .. => ∀ item ∈ items, item.InsertsObject
  | .array .. => ∀ item ∈ items, item.Inserts (.arr [])
  | .scalar _ => items = []

/-- In value position: templates of the kind of the node, and after them the members of its enum in
their order. -/
def InsertedAtValue (n : Node) (items : List Item) : Prop :=
  ∃ templates members, items = templates ++ members ∧ InsertedForKind n templates
    ∧ List.Forall₂ (fun v item => item.Inserts v) (n.hints.enum.getD []) members

section Positions

variable {e : Engine} {root n : Node} {indent : String}

theorem insertedAtRoot (hplain : e.markup = .plain) (h : SoundTree root)
    (hindent : IsIndentation indent) : InsertedAtRoot root (e.rootItems root indent) := by
  refine ⟨_, _, rfl, documentItem_insertsObject hplain h hindent, ?_⟩
  rw [List.forall₂_map_right_iff, List.forall₂_same]
  intro m hm
  exact sectionItem_insertsMember hplain (h.child hm) m.1 hindent

theorem insertedAtMember (hplain : e.markup = .plain) (h : SoundTree n)
    (hindent : IsIndentation indent) : InsertedAtMember n (e.propertyItems n indent) := by
  rw [InsertedAtMember, Engine.propertyItems, List.forall₂_map_right_iff, List.forall₂_same]
  intro m hm
  exact propertyItem_insertsMember hplain (h.child hm) m.1 _ hindent

theorem insertedForKind (hplain : e.markup = .plain) (h : SoundTree n)
    (hindent : IsIndentation indent) : InsertedForKind n (e.structureItems n indent) := by
  cases n with
  | scalar => rfl
  | object hints properties required =>
    cases properties with
    | nil => exact List.forall_mem_nil _
    | cons => exact objectItems_insertObject hplain h hindent
  | array hints items =>
    cases items with
    | none => exact List.forall_mem_nil _
    | some => exact List.forall_mem_singleton.mpr (arrayItem_inserts hplain hindent)

theorem insertedAtValue (hplain : e.markup = .plain) (h : SoundTree n)
    (hindent : IsIndentation indent) : InsertedAtValue n (e.valueItems n indent) := by
  refine ⟨_, _, rfl, insertedForKind hplain h hindent, ?_⟩
  apply forall₂_enumItems
  cases hvalues : n.hints.enum with
  | none => exact List.forall_mem_nil _
  | some values => exact (h n .root).enum values hvalues

end Positions

/-- The indentation of a cursor's line. -/
theorem isIndentation_context (config : Config) (text : List Char) (offset : Int) :
    IsIndentation (Context.ofOffset config text offset).indent := by
  intro c hc
  rw [Context.ofOffset, Context.atIndex, String.toList_ofList, leadingIndent] at hc
  exact List.all_eq_true.mp List.all_takeWhile c hc

/-- **Every item inserts JSON of the kind that its position needs.** -/
theorem items_insert_json {e : Engine} (hplain : e.markup = .plain) {root : Node}
    (h : SoundTree root) (text : List Char) (offset : Int) :
    let context := Context.ofOffset e.config text offset
    let items := e.items root text offset
    (context.isRoot = true → InsertedAtRoot root items)
    ∧ (context.isRoot = false → (context.inObject && !context.afterColon) = true →
        match root.navigate? context.path with
        | some n => InsertedAtMember n items
        | none => items = [])
    ∧ (context.isRoot = false → (context.inObject && !context.afterColon) = false →
        match context.valuePath?.bind fun path => root.navigate? path with
        | some n => InsertedAtValue n items
        | none => items = []) := by
  intro context items
  have hindent : IsIndentation context.indent := isIndentation_context e.config text offset
  have hitems : items = e.itemsFor root context := rfl
  refine ⟨?_, ?_, ?_⟩
  · intro hroot
    rw [hitems, Engine.itemsFor, if_pos hroot]
    exact insertedAtRoot hplain h hindent
  · intro hroot hmember
    rw [hitems, Engine.itemsFor, hroot, hmember]
    cases hn : root.navigate? context.path with
    | none => rfl
    | some n => exact insertedAtMember hplain (h.within (Node.within_of_navigate? hn)) hindent
  · intro hroot hmember
    rw [hitems, Engine.itemsFor, hroot, hmember]
    cases hn : context.valuePath?.bind fun path => root.navigate? path with
    | none => rfl
    | some n =>
      obtain ⟨path, -, hpath⟩ := Option.bind_eq_some_iff.mp hn
      exact insertedAtValue hplain (h.within (Node.within_of_navigate? hpath)) hindent

/-- The items in an empty document, and those inside the section of an unfinished one. -/
theorem items_insert_json_sampleRoot :
    InsertedAtRoot sampleRoot (Engine.items { markup := .plain } sampleRoot [] 0)
      ∧ InsertedAtMember
          (.object ⟨["object"], none, none, none, false, none⟩
            [("name", .scalar ⟨["string"], none, none, none, false, none⟩)] ["name"])
          (Engine.items { markup := .plain } sampleRoot "\x7b\"metadata\": \x7b".toList 14) := by
  have hsound : ∀ h : Hints, h.suggested = none → h.enum = none → SoundHints h :=
    fun h hsuggested henum => ⟨by simp [hsuggested], by simp [henum]⟩
  have hroot : SoundTree sampleRoot := by
    apply soundTree_object (hsound _ rfl rfl)
    simp only [List.forall_mem_cons, List.not_mem_nil, false_implies, implies_true, and_true]
    refine ⟨soundTree_object (hsound _ rfl rfl) ?_, soundTree_scalar ⟨?_, ?_⟩⟩
    · exact List.forall_mem_singleton.mpr (soundTree_scalar (hsound _ rfl rfl))
    · rintro v ⟨⟩
      exact ⟨.int 2, fun hstr => by cases hstr⟩
    · rintro values ⟨⟩
  refine ⟨?_, ?_⟩
  · exact (items_insert_json (e := { markup := .plain }) rfl hroot [] 0).1 (by decide +kernel)
  · obtain ⟨-, hmember, -⟩ := items_insert_json (e := { markup := .plain }) rfl hroot
      "\x7b\"metadata\": \x7b".toList 14
    have hcontext : Context.ofOffset ({ markup := .plain } : Engine).config
        "\x7b\"metadata\": \x7b".toList 14 = { path := ["metadata"], inObject := true } := by
      decide +kernel
    rw [hcontext] at hmember
    exact hmember rfl rfl

end SchemaAssist.Completion
