/-
# Fields are numbered from left to right

What a template holds besides its text are its *marks*: the fields and the final cursor.  An editor
visits the fields by their numbers, so a number used twice makes two fields one, and a number left
out breaks the tour.  Here the marks of templates are computed, whatever markup spells them:

* `marks_fieldRows`: the fields of an object are numbered in a row;
* `marks_documentRows`, `exists_documentRows_split`: so are those of a document across its sections,
  and the first section without fields takes the cursor;
* `exists_filled`: if the fields of a template are numbered in a row, the text between them is the
  same whatever spells them;
* `templates_number_fields`: all of this for the templates themselves.
-/
import SchemaAssist.Proofs.Template.Member

namespace SchemaAssist.Template

open SchemaAssist.Json SchemaAssist.Schema

/-! ## 1. Marks -/

/-- The piece is a field or the final cursor. -/
def Piece.isMark : Piece → Bool
  | .text _ => false
  | .field .. => true
  | .finalCursor => true

/-- The fields and final cursors of a template, from left to right. -/
def marks (pieces : List Piece) : List Piece :=
  pieces.filter Piece.isMark

@[simp] theorem marks_nil : marks [] = [] := rfl

@[simp] theorem marks_text (s : String) (rest : List Piece) :
    marks (.text s :: rest) = marks rest := rfl

@[simp] theorem marks_field (index : Int) (s : String) (rest : List Piece) :
    marks (.field index s :: rest) = .field index s :: marks rest := rfl

@[simp] theorem marks_finalCursor (rest : List Piece) :
    marks (.finalCursor :: rest) = .finalCursor :: marks rest := rfl

@[simp] theorem marks_append (a b : List Piece) : marks (a ++ b) = marks a ++ marks b :=
  List.filter_append a b

theorem finalCursor_mem_marks {pieces : List Piece} :
    .finalCursor ∈ marks pieces ↔ .finalCursor ∈ pieces := by
  simp [marks, Piece.isMark]

/-- What stands between rows is text. -/
theorem marks_separated (between : String) (rows : List (List Piece)) :
    marks (separated between rows) = marks rows.flatten := by
  induction rows with
  | nil => rfl
  | cons row rest ih =>
    cases rest with
    | nil => simp [separated]
    | cons next others =>
      rw [separated, marks_append, marks_text, ih, ← marks_append]
      · rfl
      · exact List.cons_ne_nil next others

/-- So is what stands around them. -/
theorem marks_braced (indent : String) (rows : List (List Piece)) :
    marks (braced indent rows) = marks rows.flatten := by
  cases rows with
  | nil => rfl
  | cons row rest => simp [braced, marks_separated]

/-! ## 2. Numbered fields -/

/-- Fields for some literals, numbered from `start`. -/
def numbered (start : Int) : List String → List Piece
  | [] => []
  | s :: rest => .field start s :: numbered (start + 1) rest

theorem numbered_append (start : Int) (a b : List String) :
    numbered start (a ++ b) = numbered start a ++ numbered (start + a.length) b := by
  induction a generalizing start with
  | nil => simp [numbered]
  | cons s rest ih =>
    have hnext : start + 1 + (rest.length : Int) = start + (s :: rest).length := by
      push_cast [List.length_cons]
      omega
    rw [List.cons_append, numbered, ih, hnext, numbered, List.cons_append]

theorem finalCursor_notMem_numbered (start : Int) (literals : List String) :
    .finalCursor ∉ numbered start literals := by
  induction literals generalizing start with
  | nil => exact List.not_mem_nil
  | cons s rest ih => simpa [numbered] using ih (start + 1)

theorem filter_numbered (start : Int) (literals : List String) :
    (numbered start literals).filter (· ≠ .finalCursor) = numbered start literals := by
  rw [List.filter_eq_self]
  intro piece hpiece
  exact decide_eq_true (ne_of_mem_of_not_mem hpiece (finalCursor_notMem_numbered start literals))

/-- The literals of some properties. -/
def literalsOf (properties : List Property) : List String :=
  properties.map fun p => fieldLiteral p.hints

/-- **The fields of an object are numbered in a row.** -/
theorem marks_fieldRows (indent : String) (start : Int) (properties : List Property) :
    marks (fieldRows indent start properties).flatten = numbered start (literalsOf properties) := by
  induction properties generalizing start with
  | nil => rfl
  | cons p rest ih =>
    rw [fieldRows, List.flatten_cons, marks_append, ih]
    rfl

/-- Some literals, each with the text behind it, as placeholders numbered from `start`. -/
def filled (placeholder : Int → String → String) (start : Int) : List (String × String) → String
  | [] => ""
  | (s, gap) :: rest => placeholder start s ++ gap ++ filled placeholder (start + 1) rest

theorem render_cons (m : Markup) (piece : Piece) (rest : List Piece) :
    render m (piece :: rest) = piece.render m ++ render m rest := by
  simp [render]

/-- **The text between numbered fields is the same whatever spells them.** -/
theorem exists_filled (markup : Markup) :
    ∀ (pieces : List Piece) {start : Int} {literals : List String},
    (marks pieces).filter (· ≠ .finalCursor) = numbered start literals → ∃ first rows,
      rows.map Prod.fst = literals ∧ ∀ placeholder : Int → String → String,
        render { markup with placeholder } pieces = first ++ filled placeholder start rows
  | [], start, literals, h => by
    cases literals with
    | nil => exact ⟨"", [], rfl, fun _ => rfl⟩
    | cons s rest => cases h
  | .text s :: rest, start, literals, h => by
    obtain ⟨first, rows, hrows, htext⟩ := exists_filled markup rest h
    exact ⟨s ++ first, rows, hrows, fun placeholder => by
      rw [render_cons, htext, String.append_assoc]; rfl⟩
  | .finalCursor :: rest, start, literals, h => by
    obtain ⟨first, rows, hrows, htext⟩ := exists_filled markup rest h
    exact ⟨markup.finalCursor ++ first, rows, hrows, fun placeholder => by
      rw [render_cons, htext, String.append_assoc]; rfl⟩
  | .field index s :: rest, start, literals, h => by
    cases literals with
    | nil => cases h
    | cons t literals =>
      obtain ⟨hfield, hrest⟩ := List.cons.inj h
      cases hfield
      obtain ⟨first, rows, hrows, htext⟩ := exists_filled markup rest hrest
      refine ⟨"", (s, first) :: rows, by rw [List.map_cons, hrows], fun placeholder => ?_⟩
      rw [render_cons, htext, filled, ← String.append_assoc]
      simp [Piece.render]

/-! ## 3. Rows of a document -/

/-- The literals that a property of the root contributes to a document: those of the properties that
its section shows, or its own if it is no section. -/
def leafLiterals (config : Config) (root : Node) (p : Property) : List String :=
  match sectionOf? root p with
  | some child => literalsOf (child.properties config.includeOptional)
  | none => [fieldLiteral p.hints]

/-- The property is a section that shows no properties. -/
def IsEmptySection (config : Config) (root : Node) (p : Property) : Prop :=
  ∃ child, sectionOf? root p = some child ∧ child.properties config.includeOptional = []

/-- A section without fields, the cursor inside. -/
def cursorRow (level1 level2 : String) (p : Property) : List Piece :=
  [.text (nameText level1 p.name ++ "\x7b\n" ++ level2), .finalCursor,
    .text ("\n" ++ level1 ++ "\x7d")]

theorem sectionRow_nil (level1 level2 : String) (start : Int) (p : Property) :
    sectionRow level1 level2 start true p [] = cursorRow level1 level2 p := rfl

theorem marks_sectionRow_of_ne_nil (level1 level2 : String) (start : Int) (placeCursor : Bool)
    (p : Property) {inner : List Property} (h : inner ≠ []) :
    marks (sectionRow level1 level2 start placeCursor p inner)
      = numbered start (literalsOf inner) := by
  rw [sectionRow, if_neg (by simpa using h), List.cons_append, marks_text, marks_append, fields,
    marks_separated, marks_fieldRows]
  exact List.append_nil _

section Rows

variable {config : Config} {root : Node} (level1 level2 : String) {p : Property}

theorem leafLiterals_of_isEmptySection (h : IsEmptySection config root p) :
    leafLiterals config root p = [] := by
  obtain ⟨child, hchild, hinner⟩ := h
  simp [leafLiterals, hchild, hinner, literalsOf]

/-- A section without fields takes the cursor, if it is to be placed, and the sections behind it do
not. -/
theorem documentRows_of_isEmptySection (h : IsEmptySection config root p) (start : Int)
    (rest : List Property) :
    documentRows config root level1 level2 start true (p :: rest)
      = cursorRow level1 level2 p :: documentRows config root level1 level2 start false rest := by
  obtain ⟨child, hchild, hinner⟩ := h
  obtain ⟨hfind, hobject⟩ := Option.filter_eq_some_iff.mp hchild
  cases child with
  | scalar | array => cases hobject
  | object => simp [documentRows, hfind, hinner, sectionRow_nil]

/-- Any other row has the fields of its property and leaves the cursor to the rest. -/
theorem exists_documentRows_numbered {placeCursor : Bool}
    (h : placeCursor = true → ¬ IsEmptySection config root p) (start : Int)
    (rest : List Property) : ∃ row,
    documentRows config root level1 level2 start placeCursor (p :: rest)
        = row :: documentRows config root level1 level2
            (start + (leafLiterals config root p).length) placeCursor rest
      ∧ marks row = numbered start (leafLiterals config root p) := by
  cases hsection : sectionOf? root p with
  | none =>
    have hleaf : leafLiterals config root p = [fieldLiteral p.hints] := by
      simp [leafLiterals, hsection]
    refine ⟨[.text (nameText level1 p.name), .field start (fieldLiteral p.hints)], ?_, ?_⟩
    · have hfind := Option.filter_eq_none_iff.mp hsection
      rw [documentRows, hleaf]
      split
      · rename_i hobject
        exact absurd rfl (hfind _ hobject)
      · rfl
    · rw [hleaf]
      rfl
  | some child =>
    obtain ⟨hfind, hobject⟩ := Option.filter_eq_some_iff.mp hsection
    have hleaf : leafLiterals config root p
        = literalsOf (child.properties config.includeOptional) := by
      simp [leafLiterals, hsection]
    refine ⟨sectionRow level1 level2 start placeCursor p
      (child.properties config.includeOptional), ?_, ?_⟩
    · cases child with
      | scalar | array => cases hobject
      | object hints properties required =>
        have hcursor : (placeCursor && !((Node.object hints properties required).properties
            config.includeOptional).isEmpty) = placeCursor := by
          cases placeCursor with
          | false => rfl
          | true =>
            have hinner := fun hnil => h rfl ⟨_, hsection, hnil⟩
            simpa using hinner
        simp [documentRows, hfind, hleaf, hcursor, literalsOf]
    · rw [hleaf]
      by_cases hinner : child.properties config.includeOptional = []
      · cases placeCursor with
        | true => exact absurd ⟨child, hsection, hinner⟩ (h rfl)
        | false =>
          rw [hinner]
          rfl
      · exact marks_sectionRow_of_ne_nil level1 level2 start placeCursor p hinner

/-- The rows up to a section without fields, or all rows if the cursor is not to be placed: fields
numbered in a row, with the numbers behind them left to the rows that follow. -/
theorem exists_documentRows_append {placeCursor : Bool} (rest : List Property) :
    ∀ {properties : List Property} (start : Int),
    (placeCursor = true → ∀ p ∈ properties, ¬ IsEmptySection config root p) → ∃ rows,
      documentRows config root level1 level2 start placeCursor (properties ++ rest)
          = rows ++ documentRows config root level1 level2
              (start + (properties.flatMap (leafLiterals config root)).length) placeCursor rest
        ∧ rows.length = properties.length
        ∧ marks rows.flatten = numbered start (properties.flatMap (leafLiterals config root))
  | [], start, _ => ⟨[], by simp, rfl, rfl⟩
  | p :: others, start, h => by
    obtain ⟨row, hrow, hmarks⟩ := exists_documentRows_numbered level1 level2
      (fun hplace => h hplace p List.mem_cons_self) start (others ++ rest)
    obtain ⟨rows, hrows, hlength, hothers⟩ := exists_documentRows_append rest
      (start + (leafLiterals config root p).length)
      fun hplace q hq => h hplace q (List.mem_cons_of_mem p hq)
    refine ⟨row :: rows, ?_, by simp [hlength], ?_⟩
    · rw [List.cons_append, hrow, hrows, List.cons_append, List.flatMap_cons, List.length_append]
      push_cast
      rw [Int.add_assoc]
    · rw [List.flatten_cons, marks_append, hmarks, hothers, List.flatMap_cons, numbered_append]

/-- **The fields of a document are numbered in a row across its sections.** -/
theorem marks_documentRows {placeCursor : Bool} {properties : List Property} (start : Int)
    (h : placeCursor = true → ∀ p ∈ properties, ¬ IsEmptySection config root p) :
    marks (documentRows config root level1 level2 start placeCursor properties).flatten
      = numbered start (properties.flatMap (leafLiterals config root)) := by
  obtain ⟨rows, hrows, -, hmarks⟩ := exists_documentRows_append level1 level2 [] start h
  rw [List.append_nil, documentRows, List.append_nil] at hrows
  rw [hrows, hmarks]

/-- **The first section without fields takes the cursor.**  The rows before it and behind it have
fields only, and the numbers go on behind it. -/
theorem exists_documentRows_split {before after : List Property} (start : Int)
    (hbefore : ∀ q ∈ before, ¬ IsEmptySection config root q) (hp : IsEmptySection config root p) :
    ∃ rows others,
      documentRows config root level1 level2 start true (before ++ p :: after)
          = rows ++ cursorRow level1 level2 p :: others
        ∧ rows.length = before.length
        ∧ marks rows.flatten = numbered start (before.flatMap (leafLiterals config root))
        ∧ marks others.flatten
            = numbered (start + (before.flatMap (leafLiterals config root)).length)
                (after.flatMap (leafLiterals config root)) := by
  obtain ⟨rows, hrows, hlength, hmarks⟩ := exists_documentRows_append level1 level2 (p :: after)
    start fun _ => hbefore
  rw [documentRows_of_isEmptySection level1 level2 hp] at hrows
  exact ⟨rows, _, hrows, hlength, hmarks, marks_documentRows level1 level2 _ nofun⟩

end Rows

/-! ## 4. Templates -/

/-- **The fields of an object template are numbered in a row**, and it has no final cursor. -/
theorem marks_objectTemplate (config : Config) (n : Node) (indent : String)
    (includeOptional : Bool) :
    marks (objectTemplate config n indent includeOptional)
      = numbered 1 (literalsOf (n.properties includeOptional)) := by
  rw [objectTemplate, marks_braced, marks_fieldRows]

section Documents

variable {config : Config} {markup : Markup} {root : Node}

/-- Without an empty section, or without markup for the cursor, a document has fields only. -/
theorem marks_documentTemplate (indent : String)
    (h : markup.finalCursor ≠ "" → ∀ p ∈ root.properties config.includeOptional,
      ¬ IsEmptySection config root p) :
    marks (documentTemplate config markup root indent) = numbered 1
      ((root.properties config.includeOptional).flatMap (leafLiterals config root)) := by
  rw [documentTemplate, marks_braced]
  exact marks_documentRows _ _ 1 fun hplace => h (by simpa using hplace)

/-- With both, the cursor is in the first empty section. -/
theorem exists_documentTemplate_split (indent : String) (hmarkup : markup.finalCursor ≠ "")
    {before after : List Property} {p : Property}
    (hshown : root.properties config.includeOptional = before ++ p :: after)
    (hbefore : ∀ q ∈ before, ¬ IsEmptySection config root q) (hp : IsEmptySection config root p) :
    ∃ rows others,
      documentTemplate config markup root indent
          = braced indent (rows ++ cursorRow (indent ++ config.indent)
              (indent ++ config.indent ++ config.indent) p :: others)
        ∧ rows.length = before.length
        ∧ marks rows.flatten = numbered 1 (before.flatMap (leafLiterals config root))
        ∧ marks others.flatten
            = numbered (1 + (before.flatMap (leafLiterals config root)).length)
                (after.flatMap (leafLiterals config root)) := by
  have hplace : (markup.finalCursor != "") = true := by simpa using hmarkup
  obtain ⟨rows, others, hrows, hmarks⟩ := exists_documentRows_split (indent ++ config.indent)
    (indent ++ config.indent ++ config.indent) 1 hbefore hp
  refine ⟨rows, others, ?_, hmarks⟩
  rw [documentTemplate, hplace, hshown, hrows]

/-- The first section without fields among some properties. -/
theorem exists_split_of_isEmptySection :
    ∀ {properties : List Property}, (∃ p ∈ properties, IsEmptySection config root p) →
    ∃ before p after, properties = before ++ p :: after
      ∧ (∀ q ∈ before, ¬ IsEmptySection config root q) ∧ IsEmptySection config root p
  | [], h => by simp at h
  | q :: rest, h => by
    by_cases hq : IsEmptySection config root q
    · exact ⟨[], q, rest, rfl, List.forall_mem_nil _, hq⟩
    · obtain ⟨before, p, after, hrest, hbefore, hp⟩ :=
        exists_split_of_isEmptySection (by simpa [hq] using h)
      exact ⟨q :: before, p, after, by rw [hrest]; rfl, by simpa [hq] using hbefore, hp⟩

/-- The fields of a document are the same with the cursor and without. -/
theorem filter_marks_documentTemplate (indent : String) :
    (marks (documentTemplate config markup root indent)).filter (· ≠ .finalCursor) = numbered 1
      ((root.properties config.includeOptional).flatMap (leafLiterals config root)) := by
  by_cases h : markup.finalCursor ≠ "" ∧
      ∃ p ∈ root.properties config.includeOptional, IsEmptySection config root p
  · obtain ⟨hmarkup, hsection⟩ := h
    obtain ⟨before, p, after, hshown, hbefore, hp⟩ := exists_split_of_isEmptySection hsection
    obtain ⟨rows, others, htemplate, -, hrows, hothers⟩ :=
      exists_documentTemplate_split indent hmarkup hshown hbefore hp
    rw [htemplate, marks_braced, hshown, List.flatten_append, marks_append, hrows,
      List.flatten_cons, marks_append, hothers, List.flatMap_append, List.flatMap_cons,
      leafLiterals_of_isEmptySection hp, List.nil_append, numbered_append, List.filter_append,
      filter_numbered, List.filter_append, filter_numbered]
    rfl
  · rw [marks_documentTemplate indent fun hmarkup p hp hempty => h ⟨hmarkup, p, hp, hempty⟩,
      filter_numbered]

/-- A document has a cursor if the markup shows it and there is an empty section for it. -/
theorem finalCursor_mem_documentTemplate (indent : String) :
    .finalCursor ∈ documentTemplate config markup root indent ↔ markup.finalCursor ≠ "" ∧
      ∃ p ∈ root.properties config.includeOptional, IsEmptySection config root p := by
  constructor
  · intro hmem
    by_contra h
    rw [← finalCursor_mem_marks, marks_documentTemplate indent
      fun hmarkup p hp hempty => h ⟨hmarkup, p, hp, hempty⟩] at hmem
    exact finalCursor_notMem_numbered _ _ hmem
  · rintro ⟨hmarkup, hsection⟩
    obtain ⟨before, p, after, hshown, hbefore, hp⟩ := exists_split_of_isEmptySection hsection
    obtain ⟨rows, others, htemplate, -⟩ :=
      exists_documentTemplate_split indent hmarkup hshown hbefore hp
    rw [htemplate, ← finalCursor_mem_marks, marks_braced]
    simp [cursorRow]

end Documents

/-- **Templates number their fields from left to right.**  Whatever spells the fields, the text of a
document template is the same text with the fields in between: one for each property of the root
that is no section and one for each property that a section shows, in this order, each with the next
number.  There is a cursor just if the markup shows it and some section has no fields.  It is alone
between the braces of the first such section, and the rows before and behind hold nothing but
fields.  An object template has a field for each property that it shows, and no cursor. -/
theorem templates_number_fields (config : Config) (markup : Markup) (root : Node)
    (indent : String) :
    (∃ first rows,
      rows.map Prod.fst
          = (root.properties config.includeOptional).flatMap (leafLiterals config root)
        ∧ ∀ placeholder : Int → String → String,
          render { markup with placeholder }
              (documentTemplate config { markup with placeholder } root indent)
            = first ++ filled placeholder 1 rows)
    ∧ (.finalCursor ∈ documentTemplate config markup root indent ↔ markup.finalCursor ≠ "" ∧
        ∃ p ∈ root.properties config.includeOptional, IsEmptySection config root p)
    ∧ (∀ before p after, root.properties config.includeOptional = before ++ p :: after →
        markup.finalCursor ≠ "" → (∀ q ∈ before, ¬ IsEmptySection config root q) →
        IsEmptySection config root p → ∃ rows others,
          documentTemplate config markup root indent
              = braced indent (rows ++ cursorRow (indent ++ config.indent)
                  (indent ++ config.indent ++ config.indent) p :: others)
            ∧ rows.length = before.length
            ∧ marks rows.flatten = numbered 1 (before.flatMap (leafLiterals config root))
            ∧ marks others.flatten
                = numbered (1 + (before.flatMap (leafLiterals config root)).length)
                    (after.flatMap (leafLiterals config root)))
    ∧ ∀ n includeOptional,
      (∃ first rows, rows.map Prod.fst = literalsOf (n.properties includeOptional)
        ∧ ∀ placeholder : Int → String → String,
          render { markup with placeholder } (objectTemplate config n indent includeOptional)
            = first ++ filled placeholder 1 rows)
      ∧ .finalCursor ∉ objectTemplate config n indent includeOptional := by
  refine ⟨exists_filled markup _ (filter_marks_documentTemplate indent),
    finalCursor_mem_documentTemplate indent,
    fun before p after hshown hmarkup hbefore hp =>
      exists_documentTemplate_split indent hmarkup hshown hbefore hp,
    fun n includeOptional => ?_⟩
  have hmarks := marks_objectTemplate config n indent includeOptional
  refine ⟨exists_filled markup _ (by rw [hmarks, filter_numbered]), ?_⟩
  rw [← finalCursor_mem_marks, hmarks]
  exact finalCursor_notMem_numbered _ _

/-- A root with a leaf, an empty section, a section with a property and another empty one. -/
def sectionedRoot : Node :=
  .object ⟨["object"], none, none, none, false, none⟩
    [("kind", .scalar ⟨["string"], none, none, some (.str "Pod"), false, none⟩),
      ("spec", .object ⟨["object"], none, none, none, false, none⟩ [] []),
      ("metadata", .object ⟨["object"], none, none, none, false, none⟩
        [("name", .scalar ⟨["string"], none, none, none, false, none⟩)] ["name"]),
      ("status", .object ⟨["object"], none, none, none, false, none⟩ [] [])]
    ["kind", "spec", "metadata", "status"]

/-- The cursor is in the section behind the leaf, and the property of the section behind it has the
second number. -/
theorem templates_number_fields_sectionedRoot : ∃ rows others,
    documentTemplate {} .tabstop sectionedRoot ""
        = braced "" (rows ++ cursorRow ("" ++ Config.indent {})
            ("" ++ Config.indent {} ++ Config.indent {})
            ⟨"spec", true, ⟨["object"], none, none, none, false, none⟩⟩ :: others)
      ∧ rows.length = 1
      ∧ marks rows.flatten = [.field 1 (literal "Pod")]
      ∧ marks others.flatten = [.field 2 "\"\""] := by
  refine (templates_number_fields {} .tabstop sectionedRoot "").2.2.1
    [⟨"kind", true, ⟨["string"], none, none, some (.str "Pod"), false, none⟩⟩] _
    [⟨"metadata", true, ⟨["object"], none, none, none, false, none⟩⟩,
      ⟨"status", true, ⟨["object"], none, none, none, false, none⟩⟩] rfl (by decide) ?_ ?_
  · rintro q hq ⟨child, hchild, -⟩
    cases List.mem_singleton.mp hq
    cases hchild
  · exact ⟨_, rfl, rfl⟩

end SchemaAssist.Template
