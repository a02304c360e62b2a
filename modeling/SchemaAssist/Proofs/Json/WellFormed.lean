/-
# The grammar of JSON texts

`Derives` is the grammar of the standard, one rule a line, and `IsJson` says that a text is derived
by it.  It is narrower than what the reader takes: `NaN`, `Infinity` and `-Infinity` are no words of
the grammar.

* `IsJson.read`: the reader takes every text of the grammar;
* `Value.IsFinite.derives_write`: the text that is written for a value without infinities and NaN is
  a text of the grammar, in every layout.

Values may repeat names here and hold doubles, which `Value.Exact` leaves out: their texts are JSON
all the same, although they need not be read back as the same value.
-/
import SchemaAssist.Proofs.Json.Numeral

namespace SchemaAssist.Json

open SchemaAssist.Text

/-! ## 1. The grammar -/

/-- The symbols of the grammar. -/
inductive Symbol where
  | value
  /-- A value with blanks around it. -/
  | element
  /-- The items of an array, at least one. -/
  | items
  /-- A member of an object with blanks around it. -/
  | member
  /-- The members of an object, at least one. -/
  | members

/-- The grammar of JSON: what a symbol derives. -/
inductive Derives : Symbol → List Char → Prop where
  | name {word : String} : word = "null" ∨ word = "true" ∨ word = "false" →
      Derives .value word.toList
  | number {text : List Char} : IsNumeral text → Derives .value text
  | literal {source text : List Char} : Spelled source text →
      Derives .value ('"' :: (source ++ ['"']))
  | emptyArray {gap : List Char} : (∀ c ∈ gap, isJsonBlank c = true) →
      Derives .value ('[' :: (gap ++ [']']))
  | array {text : List Char} : Derives .items text → Derives .value ('[' :: (text ++ [']']))
  | emptyObject {gap : List Char} : (∀ c ∈ gap, isJsonBlank c = true) →
      Derives .value ('{' :: (gap ++ ['}']))
  | object {text : List Char} : Derives .members text → Derives .value ('{' :: (text ++ ['}']))
  | element {before text after : List Char} : (∀ c ∈ before, isJsonBlank c = true) →
      Derives .value text → (∀ c ∈ after, isJsonBlank c = true) →
      Derives .element (before ++ (text ++ after))
  | lastItem {text : List Char} : Derives .element text → Derives .items text
  | nextItem {text rest : List Char} : Derives .element text → Derives .items rest →
      Derives .items (text ++ ',' :: rest)
  | member {before source name mid text : List Char} : (∀ c ∈ before, isJsonBlank c = true) →
      Spelled source name → (∀ c ∈ mid, isJsonBlank c = true) → Derives .element text →
      Derives .member (before ++ '"' :: (source ++ '"' :: (mid ++ ':' :: text)))
  | lastMember {text : List Char} : Derives .member text → Derives .members text
  | nextMember {text rest : List Char} : Derives .member text → Derives .members rest →
      Derives .members (text ++ ',' :: rest)

/-- The text is a well-formed JSON text. -/
def IsJson (text : List Char) : Prop :=
  Derives .element text

theorem Derives.isJson {text : List Char} (h : Derives .value text) : IsJson text := by
  simpa [IsJson] using Derives.element (List.forall_mem_nil _) h (List.forall_mem_nil _)

/-! ## 2. The reader takes it -/

/-- The text is that of a piece of a document. -/
def Symbol.IsPiece : Symbol → List Char → Prop
  | .value, text => ∃ t : Tree, t.chars = text
  | .element, text => ∃ (before : Blanks) (t : Tree) (after : Blanks),
      before.chars ++ (t.chars ++ after.chars) = text
  | .items, text => ∃ e : Elements, e.chars = text
  | .member, text => ∃ (l : Label) (t : Tree) (after : Blanks),
      l.chars ++ (t.chars ++ after.chars) = text
  | .members, text => ∃ e : Entries, e.chars = text

/-- **What the grammar derives are pieces of documents.** -/
theorem Derives.isPiece {symbol : Symbol} {text : List Char} (h : Derives symbol text) :
    symbol.IsPiece text := by
  induction h with
  | @name word hword =>
    have hread : (readWord? word.toList).isSome = true := by
      rcases hword with rfl | rfl | rfl <;> decide
    exact ⟨.bare ⟨word.toList, hread⟩, rfl⟩
  | @number text hnumeral => exact ⟨.bare ⟨text, hnumeral.readWord⟩, rfl⟩
  | literal hspelled => exact ⟨.literal ⟨_, _, hspelled⟩, rfl⟩
  | emptyArray hgap => exact ⟨.emptyArray ⟨_, hgap⟩, rfl⟩
  | array _ ih =>
    obtain ⟨e, rfl⟩ := ih
    exact ⟨.array e, rfl⟩
  | emptyObject hgap => exact ⟨.emptyObject ⟨_, hgap⟩, rfl⟩
  | object _ ih =>
    obtain ⟨e, rfl⟩ := ih
    exact ⟨.object e, rfl⟩
  | element hbefore _ hafter ih =>
    obtain ⟨t, rfl⟩ := ih
    exact ⟨⟨_, hbefore⟩, t, ⟨_, hafter⟩, rfl⟩
  | lastItem _ ih =>
    obtain ⟨before, t, after, rfl⟩ := ih
    exact ⟨.last before t after, rfl⟩
  | nextItem _ _ ih ihrest =>
    obtain ⟨before, t, after, rfl⟩ := ih
    obtain ⟨e, rfl⟩ := ihrest
    exact ⟨.cons before t after e, by simp [Elements.chars]⟩
  | member hbefore hspelled hmid _ ih =>
    obtain ⟨gap, t, after, rfl⟩ := ih
    refine ⟨⟨⟨_, hbefore⟩, ⟨_, _, hspelled⟩, ⟨_, hmid⟩, gap⟩, t, after, ?_⟩
    simp [Label.chars, Quotation.chars]
  | lastMember _ ih =>
    obtain ⟨l, t, after, rfl⟩ := ih
    exact ⟨.last l t after, rfl⟩
  | nextMember _ _ ih ihrest =>
    obtain ⟨l, t, after, rfl⟩ := ih
    obtain ⟨e, rfl⟩ := ihrest
    exact ⟨.cons l t after e, by simp [Entries.chars]⟩

/-- **A well-formed text is read.** -/
theorem IsJson.read {text : List Char} (h : IsJson text) : (Value.read? text).isSome = true := by
  obtain ⟨before, t, after, rfl⟩ := Derives.isPiece h
  exact Option.isSome_of_eq_some (Document.read_text ⟨before, t, after⟩)

/-! ## 3. Scalars -/

theorem derives_boolText (b : Bool) : Derives .value (boolText b) := by
  cases b with
  | false => exact .name (.inr (.inr rfl))
  | true => exact .name (.inr (.inl rfl))

theorem derives_integerText (n : Int) : Derives .value (integerText n) :=
  .number (isNumeral_integerText n)

theorem derives_quoted (ascii : Bool) (text : List Char) : Derives .value (quoted ascii text) :=
  .literal (spelled_escape ascii text)

/-! ## 4. Values -/

/-- The value has neither infinities nor NaN in it. -/
inductive Value.IsFinite : Value → Prop where
  | null : IsFinite .null
  | bool (b : Bool) : IsFinite (.bool b)
  | int (n : Int) : IsFinite (.int n)
  | double {d : Double} : d.isFinite = true → IsFinite (.double d)
  | str (s : String) : IsFinite (.str s)
  | arr {items : List Value} : (∀ v ∈ items, IsFinite v) → IsFinite (.arr items)
  | obj {ms : Members} : (∀ m ∈ ms, IsFinite m.2) → IsFinite (.obj ms)

namespace Value

section Layout

variable {l : Layout} {item name : List Char}

/-- The items of an array, each written as a value. -/
theorem derives_items (hl : l.Spaces item name) (depth : Nat) {blanks : List Char}
    (hblanks : ∀ c ∈ blanks, isJsonBlank c = true) : ∀ {vs : List Value} {v : Value}
    {before : List Char}, (∀ c ∈ before, isJsonBlank c = true) →
    (∀ w ∈ v :: vs, Derives .value (w.write l depth)) →
    Derives .items (before ++ (v.write l depth ++ (writeItems l depth vs ++ blanks)))
  | [], v, before, hbefore, h =>
    .lastItem (.element hbefore (h v List.mem_cons_self) hblanks)
  | w :: vs, v, before, hbefore, h => by
    -- What follows the comma belongs to the next item.
    have hmark : ∀ c ∈ item ++ l.lineBreak depth, isJsonBlank c = true :=
      List.forall_mem_append.mpr ⟨hl.item_blank, l.isJsonBlank_lineBreak depth⟩
    have hrest := derives_items hl depth hblanks hmark fun x hx => h x (List.mem_cons_of_mem v hx)
    have hfirst := Derives.element hbefore (h v List.mem_cons_self) (List.forall_mem_nil _)
    simpa [writeItems, hl.item_eq] using Derives.nextItem hfirst hrest

/-- The members of an object, the values of which are written as values. -/
theorem derives_members (hl : l.Spaces item name) (depth : Nat) {blanks : List Char}
    (hblanks : ∀ c ∈ blanks, isJsonBlank c = true) : ∀ {ms : Members} {k : String} {v : Value}
    {before : List Char}, (∀ c ∈ before, isJsonBlank c = true) →
    (∀ m ∈ (k, v) :: ms, Derives .value (m.2.write l depth)) →
    Derives .members (before ++ (quoted l.ascii k.toList ++ (l.nameMark ++ (v.write l depth
      ++ (writeMembers l depth ms ++ blanks)))))
  | [], k, v, before, hbefore, h => by
    have hvalue := Derives.element hl.name_blank (h (k, v) List.mem_cons_self) hblanks
    have hmember := Derives.member hbefore (spelled_escape l.ascii k.toList)
      (List.forall_mem_nil _) hvalue
    simpa [writeMembers, hl.name_eq, quoted] using Derives.lastMember hmember
  | (j, w) :: ms, k, v, before, hbefore, h => by
    have hmark : ∀ c ∈ item ++ l.lineBreak depth, isJsonBlank c = true :=
      List.forall_mem_append.mpr ⟨hl.item_blank, l.isJsonBlank_lineBreak depth⟩
    have hrest := derives_members hl depth hblanks hmark
      fun x hx => h x (List.mem_cons_of_mem _ hx)
    have hvalue := Derives.element hl.name_blank (h (k, v) List.mem_cons_self)
      (List.forall_mem_nil _)
    have hmember := Derives.member hbefore (spelled_escape l.ascii k.toList)
      (List.forall_mem_nil _) hvalue
    simpa [writeMembers, hl.name_eq, hl.item_eq, quoted] using Derives.nextMember hmember hrest

/-- **What is written for a value is well-formed**, in every layout and at every depth. -/
theorem IsFinite.derives_write (hl : l.Spaces item name) {v : Value} (h : v.IsFinite) :
    ∀ depth, Derives .value (v.write l depth) := by
  -- The depth grows on the way into a container, so it is left open in the induction.
  induction h with
  | null => exact fun _ => .name (.inl rfl)
  | bool b => exact fun _ => derives_boolText b
  | int n => exact fun _ => derives_integerText n
  | double hfinite => exact fun _ => .number (isNumeral_text .json hfinite)
  | str s => exact fun _ => derives_quoted l.ascii s.toList
  | @arr items _ ih =>
    intro depth
    cases items with
    | nil => simpa [write] using Derives.emptyArray (List.forall_mem_nil _)
    | cons v vs =>
      have := derives_items hl (depth + 1) (l.isJsonBlank_lineBreak depth)
        (l.isJsonBlank_lineBreak (depth + 1)) fun w hw => ih w hw (depth + 1)
      simpa [write] using this.array
  | @obj ms _ ih =>
    intro depth
    cases ms with
    | nil => simpa [write] using Derives.emptyObject (List.forall_mem_nil _)
    | cons m ms =>
      obtain ⟨k, v⟩ := m
      have := derives_members hl (depth + 1) (l.isJsonBlank_lineBreak depth)
        (l.isJsonBlank_lineBreak (depth + 1)) fun m hm => ih m hm (depth + 1)
      simpa [write] using this.object

theorem IsFinite.derives_compact {v : Value} (h : v.IsFinite) :
    Derives .value v.compact.toList := by
  simpa [compact, text] using h.derives_write Layout.spaces_compact 0

theorem IsFinite.derives_pretty {v : Value} (h : v.IsFinite) :
    Derives .value v.pretty.toList := by
  simpa [pretty, text] using h.derives_write Layout.spaces_pretty 0

end Layout

end Value

end SchemaAssist.Json
