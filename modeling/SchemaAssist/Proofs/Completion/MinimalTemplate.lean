/-
# The minimal template of an object

In the value position of an object two templates may be offered: the full one, and a minimal one
with the required properties only.  The minimal one is left out where its text is that of the full
one, so the text has to tell which properties were selected.  It does, however the markup spells
fields: the required properties come first in both, and whatever follows makes the text longer
(`length_render_braced_lt`).  Hence the minimal template is offered exactly where an optional
property is shown (`minimal_offered_iff`).
-/
import SchemaAssist.Completion.Engine
import SchemaAssist.Proofs.Template.Numbering

namespace SchemaAssist.Template

open SchemaAssist.Json SchemaAssist.Schema

/-! ## 1. Longer templates -/

@[simp] theorem render_nil (m : Markup) : render m [] = "" := rfl

theorem render_append (m : Markup) (a b : List Piece) :
    render m (a ++ b) = render m a ++ render m b := by
  induction a with
  | nil => simp
  | cons piece a ih => rw [List.cons_append, render_cons, render_cons, ih, String.append_assoc]

theorem separated_cons (between : String) (row : List Piece) {rest : List (List Piece)}
    (h : rest ≠ []) :
    separated between (row :: rest) = row ++ .text between :: separated between rest := by
  cases rest with
  | nil => exact absurd rfl h
  | cons => rfl

theorem separated_append (between : String) {a b : List (List Piece)} (ha : a ≠ []) (hb : b ≠ []) :
    separated between (a ++ b) = separated between a ++ .text between :: separated between b := by
  induction a with
  | nil => exact absurd rfl ha
  | cons row a ih =>
    rw [List.cons_append, separated_cons between row (List.append_ne_nil_of_right_ne_nil a hb)]
    by_cases hnil : a = []
    · subst hnil
      rfl
    · rw [ih hnil, separated_cons between row hnil, List.append_assoc, List.cons_append]

theorem braced_nil (indent : String) : braced indent [] = [.text "\x7b\x7d"] := rfl

/-- The braces, the breaks of the line and the indentation around some rows. -/
theorem length_render_braced (m : Markup) (indent : String) {rows : List (List Piece)}
    (h : rows ≠ []) :
    (render m (braced indent rows)).length
      = (render m (separated ",\n" rows)).length + indent.length + 4 := by
  have hopen : "\x7b\n".length = 2 := rfl
  have hbreak : "\n".length = 1 := rfl
  have hclose : "\x7d".length = 1 := rfl
  rw [braced, if_neg (by simpa using h), List.cons_append, render_cons, render_append, render_cons,
    render_nil]
  simp only [Piece.render, String.length_append, String.length_empty, hopen, hbreak, hclose]
  omega

/-- **More rows make a longer text**, whatever the markup is. -/
theorem length_render_braced_lt (m : Markup) (indent : String) (a : List (List Piece))
    {b : List (List Piece)} (hb : b ≠ []) :
    (render m (braced indent a)).length < (render m (braced indent (a ++ b))).length := by
  rw [length_render_braced m indent (List.append_ne_nil_of_right_ne_nil a hb)]
  by_cases ha : a = []
  · subst ha
    have hempty : "\x7b\x7d".length = 2 := rfl
    rw [braced_nil, render_cons, render_nil, String.append_empty, Piece.render, hempty]
    omega
  · have hcomma : ",\n".length = 2 := rfl
    rw [length_render_braced m indent ha, separated_append _ ha hb, render_append, render_cons]
    simp only [Piece.render, String.length_append, hcomma]
    omega

theorem fieldRows_append (indent : String) (start : Int) (a b : List Property) :
    fieldRows indent start (a ++ b)
      = fieldRows indent start a ++ fieldRows indent (start + a.length) b := by
  induction a generalizing start with
  | nil => simp [fieldRows]
  | cons p a ih =>
    have hnext : start + 1 + (a.length : Int) = start + (p :: a).length := by
      push_cast [List.length_cons]
      omega
    rw [List.cons_append, fieldRows, ih, hnext, fieldRows, List.cons_append]

theorem fieldRows_eq_nil_iff {indent : String} {start : Int} {properties : List Property} :
    fieldRows indent start properties = [] ↔ properties = [] := by
  cases properties <;> simp [fieldRows]

/-! ## 2. Selections -/

/-- What is shown besides the required properties is optional and has a recommended value. -/
theorem recommendedProperties_ne_nil_iff (n : Node) :
    n.recommendedProperties ≠ []
      ↔ ∃ m ∈ n.children, m.1 ∉ n.requiredNames ∧ m.2.hints.hasRecommended = true := by
  simp [Node.recommendedProperties]

theorem name_mem_of_mem_requiredProperties {n : Node} {p : Property}
    (h : p ∈ n.requiredProperties) : p.name ∈ n.requiredNames := by
  obtain ⟨name, hname, hp⟩ := List.mem_filterMap.mp h
  obtain ⟨child, -, rfl⟩ := Option.map_eq_some_iff.mp hp
  exact hname

theorem name_not_mem_of_mem_recommendedProperties {n : Node} {p : Property}
    (h : p ∈ n.recommendedProperties) : p.name ∉ n.requiredNames := by
  obtain ⟨m, hm, rfl⟩ := List.mem_map.mp h
  obtain ⟨hnot, -⟩ : m.1 ∉ n.requiredNames ∧ m.2.hints.hasRecommended = true := by
    simpa using (List.mem_filter.mp hm).2
  exact hnot

/-- The required ones among the properties that a template shows. -/
theorem filter_properties (n : Node) (includeOptional : Bool) :
    (n.properties includeOptional).filter (fun p => p.name ∈ n.requiredNames)
      = n.properties false := by
  have hrequired : n.requiredProperties.filter (fun p => p.name ∈ n.requiredNames)
      = n.requiredProperties :=
    List.filter_eq_self.mpr fun p hp => decide_eq_true (name_mem_of_mem_requiredProperties hp)
  have hrecommended : n.recommendedProperties.filter (fun p => p.name ∈ n.requiredNames) = [] :=
    List.filter_eq_nil_iff.mpr fun p hp h =>
      name_not_mem_of_mem_recommendedProperties hp (of_decide_eq_true h)
  cases includeOptional <;> simp [Node.properties, hrequired, hrecommended]

end SchemaAssist.Template

namespace SchemaAssist.Completion

open SchemaAssist.Json SchemaAssist.Schema SchemaAssist.Template

/-! ## 3. The two templates -/

namespace Item

/-- The item is the full template of an object. -/
def IsFullTemplate (item : Item) : Prop :=
  item.kind = .snippet ∧ item.label = "Object template"

/-- The item is the minimal template of an object.  An enum may have a member of that name, whose
item is of another kind. -/
def IsMinimalTemplate (item : Item) : Prop :=
  item.kind = .snippet ∧ item.label = "Minimal template"

end Item

section Items

variable {e : Engine} {n : Node} {indent : String}

/-- The rows of an object template with the properties that it shows. -/
def objectRows (e : Engine) (indent : String) (shown : List Property) : List (List Piece) :=
  fieldRows (indent ++ e.config.indent) 1 shown

/-- The rows of the required properties are the first ones of either template. -/
theorem exists_objectRows_append (e : Engine) (n : Node) (indent : String) :
    ∃ more, objectRows e indent (n.properties e.config.includeOptional)
        = objectRows e indent (n.properties false) ++ more
      ∧ (more ≠ [] ↔ e.config.includeOptional = true ∧ n.recommendedProperties ≠ []) := by
  cases hoptional : e.config.includeOptional with
  | false => exact ⟨[], by simp, by simp⟩
  | true =>
    have hrows : objectRows e indent (n.properties true)
        = objectRows e indent (n.properties false)
          ++ fieldRows (indent ++ e.config.indent) (1 + (n.properties false).length)
            n.recommendedProperties := by
      rw [objectRows, objectRows, ← fieldRows_append]
      simp [Node.properties]
    exact ⟨_, hrows, by simp [fieldRows_eq_nil_iff]⟩

/-- **The two templates have the same text only if they show the same properties.** -/
theorem insertText_minimalItem_ne_iff :
    (e.minimalItem n indent).insertText ≠ (e.objectItem n indent).insertText
      ↔ e.config.includeOptional = true ∧ n.recommendedProperties ≠ [] := by
  obtain ⟨more, hrows, hmore⟩ := exists_objectRows_append e n indent
  have hfull : (e.objectItem n indent).insertText
      = e.spell (braced indent (objectRows e indent (n.properties false) ++ more)) := by
    rw [← hrows]
    rfl
  have hminimal : (e.minimalItem n indent).insertText
      = e.spell (braced indent (objectRows e indent (n.properties false))) := rfl
  rw [← hmore, hfull, hminimal]
  constructor
  · rintro hne rfl
    exact hne (by rw [List.append_nil])
  · intro hne heq
    have hlt := length_render_braced_lt e.markup indent
      (objectRows e indent (n.properties false)) hne
    exact absurd (congrArg String.length heq) (Nat.ne_of_lt hlt)

/-- The templates in the value position of an object with properties are those of the object. -/
theorem mem_valueItems_iff (h : n.children ≠ []) {item : Item} (hkind : item.kind = .snippet) :
    item ∈ e.valueItems n indent ↔ item ∈ e.objectItems n indent := by
  have hstructure : e.structureItems n indent = e.objectItems n indent := by
    cases n with
    | scalar => exact absurd rfl h
    | array => exact absurd rfl h
    | object hints properties required =>
      cases properties with
      | nil => exact absurd rfl h
      | cons => rfl
  have henum : item ∉ Engine.enumItems n := by
    intro hitem
    obtain ⟨member, -, rfl⟩ := List.mem_map.mp hitem
    cases hkind
  rw [Engine.valueItems, List.mem_append, hstructure, or_iff_left henum]

end Items

/-- **The minimal template is offered exactly where an optional property is shown.**  It then has the
required ones among the rows of the full template, which come first there. -/
theorem minimal_offered_iff (e : Engine) {n : Node} (h : n.children ≠ []) (indent : String) :
    ((∃ item ∈ e.valueItems n indent, item.IsMinimalTemplate)
        ↔ e.config.includeOptional = true
          ∧ ∃ m ∈ n.children, m.1 ∉ n.requiredNames ∧ m.2.hints.hasRecommended = true)
      ∧ ∀ item ∈ e.valueItems n indent, item.IsMinimalTemplate →
        ∃ full ∈ e.valueItems n indent, full.IsFullTemplate ∧
          let shown := n.properties e.config.includeOptional
          let required := shown.filter fun p => p.name ∈ n.requiredNames
          full.insertText = e.spell (braced indent (objectRows e indent shown))
            ∧ item.insertText = e.spell (braced indent (objectRows e indent required))
            ∧ objectRows e indent required <+: objectRows e indent shown := by
  obtain ⟨more, hrows, -⟩ := exists_objectRows_append e n indent
  have hminimal : ∀ item ∈ e.valueItems n indent, item.IsMinimalTemplate →
      item = e.minimalItem n indent
        ∧ (e.minimalItem n indent).insertText ≠ (e.objectItem n indent).insertText := by
    intro item hitem ⟨hkind, hlabel⟩
    rcases Engine.mem_objectItems_iff.mp ((mem_valueItems_iff h hkind).mp hitem) with rfl | hitem
    · exact absurd hlabel (by simp [Engine.objectItem])
    · exact hitem
  constructor
  · rw [← recommendedProperties_ne_nil_iff, ← insertText_minimalItem_ne_iff]
    constructor
    · rintro ⟨item, hitem, hlabel⟩
      exact (hminimal item hitem hlabel).2
    · intro hne
      have hitem := Engine.mem_objectItems_iff.mpr (.inr ⟨rfl, hne⟩)
      exact ⟨_, (mem_valueItems_iff h rfl).mpr hitem, rfl, rfl⟩
  · intro item hitem hlabel
    obtain ⟨rfl, -⟩ := hminimal item hitem hlabel
    have hfull : e.objectItem n indent ∈ e.objectItems n indent :=
      Engine.mem_objectItems_iff.mpr (.inl rfl)
    refine ⟨_, (mem_valueItems_iff h rfl).mpr hfull, ⟨rfl, rfl⟩, rfl, ?_, ?_⟩
    · rw [filter_properties]
      rfl
    · rw [filter_properties]
      exact ⟨more, hrows.symm⟩

/-- An object with a name that is required and a port that is recommended. -/
def sampleBackend : Node :=
  .object { types := ["object"] }
    [("name", .scalar { types := ["string"] }),
      ("port", .scalar { types := ["integer"], recommended := some (.int 80) })] ["name"]

/-- Its minimal template has the name only; it is not offered where the port is left out anyway. -/
theorem minimal_offered_iff_sampleBackend :
    (∃ item ∈ ({} : Engine).valueItems sampleBackend "", item.IsMinimalTemplate
        ∧ item.insertText = "\x7b\n  \"name\": $\x7b1:\"\"\x7d\n\x7d")
      ∧ ¬ ∃ item ∈ ({ config := { includeOptional := false } } : Engine).valueItems sampleBackend "",
        item.IsMinimalTemplate := by
  have hchildren : sampleBackend.children ≠ [] := List.cons_ne_nil _ _
  constructor
  · obtain ⟨hoffered, hrows⟩ := minimal_offered_iff {} hchildren ""
    obtain ⟨item, hitem, hminimal⟩ := hoffered.mpr
      ⟨rfl, ("port", _), List.mem_cons_of_mem _ List.mem_cons_self, by decide, rfl⟩
    obtain ⟨full, -, -, -, htext, -⟩ := hrows item hitem hminimal
    refine ⟨item, hitem, hminimal, ?_⟩
    rw [htext]
    decide +kernel
  · rw [(minimal_offered_iff _ hchildren "").1]
    rintro ⟨hoptional, -⟩
    cases hoptional

end SchemaAssist.Completion
