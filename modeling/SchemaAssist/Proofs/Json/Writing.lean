/-
# What is written is read back

A text is `Written` for a value if a tree with that text stands for the value.  The grammar of
trees gives one rule for each kind of value, and for the members and items of containers one rule
for the first and one for the next, blanks wherever the grammar allows them.  So everything that is
put together from such pieces is read back as the value that the pieces make up: the writer of
values in all its layouts (`written_write`), and the templates, which are made of the same pieces.

Two kinds of values are not written back to themselves and left out by `Value.Exact`: doubles, and
objects that repeat a name.
-/
import Mathlib.Data.List.TakeWhile
import SchemaAssist.Json.Writer
import SchemaAssist.Proofs.Json.Reading

namespace SchemaAssist.Json

open SchemaAssist.Text

/-! ## 1. Literals -/

theorem hexValue_digitChar : ∀ d < 16, hexValue? (Nat.digitChar d) = some d := by
  decide

/-- Four hexadecimal digits are read as the number they were written for. -/
theorem hexDigits_four {n : Nat} (h : n < 0x10000) : ∃ d1 d2 d3 d4,
    hexDigits 4 n = [d1, d2, d3, d4] ∧ hexValue4? d1 d2 d3 d4 = some n := by
  refine ⟨_, _, _, _, rfl, ?_⟩
  have hdigit : ∀ m, hexValue? (Nat.digitChar (m % 16)) = some (m % 16) :=
    fun m => hexValue_digitChar _ (Nat.mod_lt m (by decide))
  simp only [hexValue4?, hdigit, Option.bind_eq_bind, Option.bind_some, Option.pure_def,
    Option.some.injEq]
  omega

/-- A character is no half of a surrogate pair. -/
theorem unitChar_toNat (c : Char) : unitChar? c.toNat = some c := by
  have hvalid : c.toNat < 0xd800 ∨ 0xdfff < c.toNat ∧ c.toNat < 0x110000 := c.valid
  rw [unitChar?, if_neg (by omega), Char.ofNat_toNat]

/-- A character beyond the Basic Multilingual Plane is the one of its surrogate pair. -/
theorem pairChar_surrogates {c : Char} (h : 0x10000 ≤ c.toNat) :
    pairChar? (highSurrogate c.toNat) (lowSurrogate c.toNat) = some c := by
  have hvalid : c.toNat < 0xd800 ∨ 0xdfff < c.toNat ∧ c.toNat < 0x110000 := c.valid
  have hsum : 0x10000 + (highSurrogate c.toNat - 0xd800) * 0x400
      + (lowSurrogate c.toNat - 0xdc00) = c.toNat := by
    unfold highSurrogate lowSurrogate
    omega
  rw [pairChar?, if_pos, hsum, Char.ofNat_toNat]
  unfold highSurrogate lowSurrogate
  omega

section Spelling

variable {source text : List Char}

theorem Spelled.unitEscape {c : Char} {n : Nat} (hn : n < 0x10000) (hc : unitChar? n = some c)
    (h : Spelled source text) : Spelled (unitEscape n ++ source) (c :: text) := by
  obtain ⟨d1, d2, d3, d4, hdigits, hvalue⟩ := hexDigits_four hn
  rw [Json.unitEscape, hdigits]
  exact .unit hvalue hc h

theorem Spelled.surrogates {c : Char} (hc : 0x10000 ≤ c.toNat) (h : Spelled source text) :
    Spelled (Json.unitEscape (highSurrogate c.toNat) ++ Json.unitEscape (lowSurrogate c.toNat)
      ++ source) (c :: text) := by
  have hvalid : c.toNat < 0xd800 ∨ 0xdfff < c.toNat ∧ c.toNat < 0x110000 := c.valid
  have hhigh : highSurrogate c.toNat < 0x10000 := by
    unfold highSurrogate
    omega
  have hlow : lowSurrogate c.toNat < 0x10000 := by
    unfold lowSurrogate
    omega
  obtain ⟨h1, h2, h3, h4, hdigits, hvalue⟩ := hexDigits_four hhigh
  obtain ⟨l1, l2, l3, l4, ldigits, lvalue⟩ := hexDigits_four hlow
  rw [Json.unitEscape, Json.unitEscape, hdigits, ldigits]
  exact .pair hvalue lvalue (pairChar_surrogates hc) h

/-- What is written for a character spells it. -/
theorem Spelled.escapeChar (ascii : Bool) (c : Char) (h : Spelled source text) :
    Spelled (escapeChar ascii c ++ source) (c :: text) := by
  unfold Json.escapeChar
  by_cases h1 : c = '"'
  · subst h1; exact .letter (by decide) h
  by_cases h2 : c = '\\'
  · subst h2; exact .letter (by decide) h
  by_cases h3 : c = '\n'
  · subst h3; exact .letter (by decide) h
  by_cases h4 : c = '\r'
  · subst h4; exact .letter (by decide) h
  by_cases h5 : c = '\t'
  · subst h5; exact .letter (by decide) h
  by_cases h6 : c = '\x08'
  · subst h6; exact .letter (by decide) h
  by_cases h7 : c = '\x0c'
  · subst h7; exact .letter (by decide) h
  rw [if_neg h1, if_neg h2, if_neg h3, if_neg h4, if_neg h5, if_neg h6, if_neg h7]
  by_cases hctl : c.toNat < 0x20
  · rw [if_pos hctl]
    exact .unitEscape (by omega) (unitChar_toNat c) h
  rw [if_neg hctl]
  split
  · split
    · exact .unitEscape (by assumption) (unitChar_toNat c) h
    · exact .surrogates (by omega) h
  · exact .plain h1 h2 (by omega) h

end Spelling

/-- **What is written for a text spells it.** -/
theorem spelled_escape (ascii : Bool) (text : List Char) : Spelled (escape ascii text) text := by
  induction text with
  | nil => exact .nil
  | cons c cs ih => exact .escapeChar ascii c ih

/-- The literal of a text. -/
def Quotation.ofText (ascii : Bool) (text : List Char) : Quotation where
  source := escape ascii text
  text := text
  spelled := spelled_escape ascii text

@[simp] theorem Quotation.chars_ofText (ascii : Bool) (text : List Char) :
    (Quotation.ofText ascii text).chars = quoted ascii text := rfl

/-! ## 2. Integers -/

/-- Only zero starts with the digit zero. -/
theorem head_toDigits {n : Nat} (h : 0 < n) : (Nat.toDigits 10 n).head? ≠ some '0' := by
  induction n using Nat.strongRecOn with
  | ind n ih =>
    by_cases hn : n < 10
    · rw [Nat.toDigits_of_lt_base hn]
      have hdigit : ∀ d < 10, 0 < d → [Nat.digitChar d].head? ≠ some '0' := by decide
      exact hdigit n hn h
    · have hfront := ih (n / 10) (by omega) (by omega)
      rw [Nat.toDigits_of_base_le (by decide) (by omega)]
      cases hd : Nat.toDigits 10 (n / 10) with
      | nil => exact absurd hd Nat.toDigits_ne_nil
      | cons c cs => rwa [hd] at hfront

/-- A numeral is read as the number it was written for. -/
theorem readMagnitude_toDigits (negative : Bool) (n : Nat) :
    readMagnitude? negative (Nat.toDigits 10 n)
      = some (.int (if negative then -(n : Int) else n)) := by
  have hdigits : ∀ c ∈ Nat.toDigits 10 n, c.isDigit = true :=
    fun c hc => Nat.isDigit_of_mem_toDigits (by decide) (by decide) hc
  have hsplit : splitDigits (Nat.toDigits 10 n) = (Nat.toDigits 10 n, []) := by
    rw [splitDigits, List.takeWhile_eq_self_iff.mpr hdigits, List.dropWhile_eq_nil_iff.mpr hdigits]
  -- Zero is the only numeral that may start with a zero, and it has one digit.
  have hzero : ¬ ((Nat.toDigits 10 n).head? = some '0' ∧ 1 < (Nat.toDigits 10 n).length) := by
    rintro ⟨hhead, hlength⟩
    rcases Nat.eq_zero_or_pos n with rfl | hn
    · simp at hlength
    · exact head_toDigits hn hhead
  have hwhole : ((Nat.toDigits 10 n).isEmpty
      || ((Nat.toDigits 10 n).head? == some '0' && decide (1 < (Nat.toDigits 10 n).length)))
      = false := by
    simp only [Bool.or_eq_false_iff, List.isEmpty_eq_false_iff, Bool.and_eq_false_iff,
      decide_eq_false_iff_not, beq_eq_false_iff_ne]
    exact ⟨Nat.toDigits_ne_nil, Decidable.not_and_iff_not_or_not.mp hzero⟩
  simp only [readMagnitude?, hsplit, hwhole, Bool.false_eq_true, if_false, readFraction?,
    readExponent?, Option.bind_eq_bind, Option.bind_some, Option.pure_def,
    Nat.ofDigitChars_ten_toDigits]

/-- The names that stand for values have letters. -/
theorem readWord_of_digits {word : List Char} (h : ∀ c ∈ word, c = '-' ∨ c.isDigit = true) :
    readWord? word = readNumber? word := by
  have hne : ∀ (name : String) (letter : Char), letter ∈ name.toList →
      ¬ (letter = '-' ∨ letter.isDigit = true) → word ≠ name.toList := by
    rintro name letter hmem hletter rfl
    exact hletter (h letter hmem)
  rw [readWord?, if_neg (hne "null" 'n' (by decide) (by decide)),
    if_neg (hne "true" 't' (by decide) (by decide)),
    if_neg (hne "false" 'f' (by decide) (by decide)),
    if_neg (hne "NaN" 'N' (by decide) (by decide)),
    if_neg (hne "Infinity" 'I' (by decide) (by decide)),
    if_neg (hne "-Infinity" 'I' (by decide) (by decide))]

/-- **An integer is read back.** -/
theorem readWord_integerText (n : Int) : readWord? (integerText n) = some (.int n) := by
  have hdigit : ∀ c ∈ Nat.toDigits 10 n.natAbs, c.isDigit = true :=
    fun c hc => Nat.isDigit_of_mem_toDigits (by decide) (by decide) hc
  unfold integerText
  split
  · have hword : ∀ c ∈ '-' :: Nat.toDigits 10 n.natAbs, c = '-' ∨ c.isDigit = true := by
      intro c hc
      exact (List.mem_cons.mp hc).imp_right (hdigit c)
    have hvalue : -(n.natAbs : Int) = n := by omega
    rw [readWord_of_digits hword, readNumber?, readMagnitude_toDigits, if_pos rfl, hvalue]
  · have hnumber : readNumber? (Nat.toDigits 10 n.natAbs)
        = readMagnitude? false (Nat.toDigits 10 n.natAbs) := by
      unfold readNumber?
      split
      · rename_i rest hrest
        have hminus := hdigit '-' (by rw [hrest]; exact List.mem_cons_self)
        exact absurd hminus (by decide)
      · rfl
    have hvalue : (n.natAbs : Int) = n := by omega
    rw [readWord_of_digits fun c hc => .inr (hdigit c hc), hnumber, readMagnitude_toDigits,
      if_neg (by decide), hvalue]

/-! ## 3. Texts that are put together -/

/-- The text of a value: a tree with these characters stands for it. -/
def Written (text : List Char) (v : Value) : Prop :=
  ∃ t : Tree, t.chars = text ∧ t.value = v

/-- The text of a member of an object, blanks before it included. -/
def WrittenMember (text : List Char) (m : String × Value) : Prop :=
  ∃ (l : Label) (t : Tree), l.chars ++ t.chars = text ∧ (l.name, t.value) = m

/-- The text between the braces of an object with at least one member. -/
def WrittenMembers (text : List Char) (ms : Members) : Prop :=
  ∃ e : Entries, e.chars = text ∧ e.members = ms

/-- The text between the brackets of an array with at least one item. -/
def WrittenItems (text : List Char) (vs : List Value) : Prop :=
  ∃ e : Elements, e.chars = text ∧ e.values = vs

/-- **The text of a value is read as the value.** -/
theorem Written.read {text : List Char} {v : Value} (h : Written text v) :
    Value.read? text = some v := by
  obtain ⟨t, rfl, rfl⟩ := h
  have := Document.read_text ⟨.none, t, .none⟩
  simpa [Document.text, Blanks.none] using this

/-- A space is a blank. -/
theorem blank_space : ∀ c ∈ [' '], isJsonBlank c = true :=
  List.forall_mem_singleton.mpr (by decide)

/-- A line feed is a blank. -/
theorem blank_lineFeed : ∀ c ∈ ['\n'], isJsonBlank c = true :=
  List.forall_mem_singleton.mpr (by decide)

section Rules

variable {text rest gap : List Char} {v : Value} {vs : List Value} {m : String × Value}
  {ms : Members}

theorem written_of_readWord (h : readWord? text = some v) : Written text v := by
  refine ⟨.bare ⟨text, by rw [h]; rfl⟩, rfl, ?_⟩
  simp [Tree.value, Bare.value, h]

theorem written_bool (b : Bool) : Written (boolText b) (.bool b) :=
  written_of_readWord (by cases b <;> rfl)

theorem written_int (n : Int) : Written (integerText n) (.int n) :=
  written_of_readWord (readWord_integerText n)

theorem written_quoted (ascii : Bool) (s : String) : Written (quoted ascii s.toList) (.str s) :=
  ⟨.literal (.ofText ascii s.toList), rfl, by
    simp [Tree.value, Quotation.value, Quotation.ofText]⟩

/-! ### Objects -/

theorem written_emptyObject (hgap : ∀ c ∈ gap, isJsonBlank c = true) :
    Written ('{' :: (gap ++ ['}'])) (.obj []) :=
  ⟨.emptyObject ⟨gap, hgap⟩, rfl, rfl⟩

/-- A name, a colon with blanks behind it, and a value. -/
theorem WrittenMember.intro (ascii : Bool) (name : String)
    (hgap : ∀ c ∈ gap, isJsonBlank c = true) (h : Written text v) :
    WrittenMember (quoted ascii name.toList ++ ':' :: (gap ++ text)) (name, v) := by
  obtain ⟨t, rfl, rfl⟩ := h
  refine ⟨⟨.none, .ofText ascii name.toList, .none, ⟨gap, hgap⟩⟩, t, ?_, ?_⟩
  · simp [Label.chars, Blanks.none]
  · simp [Label.name, Quotation.ofText]

/-- Blanks before a member. -/
theorem WrittenMember.blanks (hgap : ∀ c ∈ gap, isJsonBlank c = true)
    (h : WrittenMember text m) : WrittenMember (gap ++ text) m := by
  obtain ⟨l, t, rfl, rfl⟩ := h
  refine ⟨{ l with before := ⟨gap ++ l.before.chars, ?_⟩ }, t, by simp [Label.chars], rfl⟩
  exact List.forall_mem_append.mpr ⟨hgap, l.before.blank⟩

theorem WrittenMembers.last (h : WrittenMember text m)
    (hgap : ∀ c ∈ gap, isJsonBlank c = true) : WrittenMembers (text ++ gap) [m] := by
  obtain ⟨l, t, rfl, rfl⟩ := h
  exact ⟨.last l t ⟨gap, hgap⟩, by simp [Entries.chars], rfl⟩

theorem WrittenMembers.cons (h : WrittenMember text m) (h' : WrittenMembers rest ms) :
    WrittenMembers (text ++ ',' :: rest) (m :: ms) := by
  obtain ⟨l, t, rfl, rfl⟩ := h
  obtain ⟨e, rfl, rfl⟩ := h'
  exact ⟨.cons l t .none e, by simp [Entries.chars, Blanks.none], rfl⟩

/-- Blanks before the first member. -/
theorem WrittenMembers.blanks (hgap : ∀ c ∈ gap, isJsonBlank c = true)
    (h : WrittenMembers text ms) : WrittenMembers (gap ++ text) ms := by
  obtain ⟨e, rfl, rfl⟩ := h
  have hbefore : ∀ l : Label, ∀ c ∈ gap ++ l.before.chars, isJsonBlank c = true :=
    fun l => List.forall_mem_append.mpr ⟨hgap, l.before.blank⟩
  cases e with
  | last l t after =>
    exact ⟨.last { l with before := ⟨_, hbefore l⟩ } t after,
      by simp [Entries.chars, Label.chars], rfl⟩
  | cons l t after others =>
    exact ⟨.cons { l with before := ⟨_, hbefore l⟩ } t after others,
      by simp [Entries.chars, Label.chars], rfl⟩

/-- Of several members of one name the last one counts. -/
theorem WrittenMembers.braced (h : WrittenMembers text ms) :
    Written ('{' :: (text ++ ['}'])) (.obj (Members.ofPairs ms)) := by
  obtain ⟨e, rfl, rfl⟩ := h
  exact ⟨.object e, rfl, rfl⟩

/-! ### Arrays -/

theorem written_emptyArray (hgap : ∀ c ∈ gap, isJsonBlank c = true) :
    Written ('[' :: (gap ++ [']'])) (.arr []) :=
  ⟨.emptyArray ⟨gap, hgap⟩, rfl, rfl⟩

theorem WrittenItems.last {before : List Char} (hbefore : ∀ c ∈ before, isJsonBlank c = true)
    (h : Written text v) (hgap : ∀ c ∈ gap, isJsonBlank c = true) :
    WrittenItems (before ++ (text ++ gap)) [v] := by
  obtain ⟨t, rfl, rfl⟩ := h
  exact ⟨.last ⟨before, hbefore⟩ t ⟨gap, hgap⟩, rfl, rfl⟩

theorem WrittenItems.cons (hgap : ∀ c ∈ gap, isJsonBlank c = true) (h : Written text v)
    (h' : WrittenItems rest vs) : WrittenItems (gap ++ (text ++ ',' :: rest)) (v :: vs) := by
  obtain ⟨t, rfl, rfl⟩ := h
  obtain ⟨e, rfl, rfl⟩ := h'
  exact ⟨.cons ⟨gap, hgap⟩ t .none e, by simp [Elements.chars, Blanks.none], rfl⟩

theorem WrittenItems.bracketed (h : WrittenItems text vs) :
    Written ('[' :: (text ++ [']'])) (.arr vs) := by
  obtain ⟨e, rfl, rfl⟩ := h
  exact ⟨.array e, rfl, rfl⟩

end Rules

/-! ## 4. Values -/

/-- The value has no doubles, and no object in it repeats a name. -/
inductive Value.Exact : Value → Prop where
  | null : Exact .null
  | bool (b : Bool) : Exact (.bool b)
  | int (n : Int) : Exact (.int n)
  | str (s : String) : Exact (.str s)
  | arr {items : List Value} : (∀ v ∈ items, Exact v) → Exact (.arr items)
  | obj {ms : Members} : (Members.names ms).Nodup → (∀ m ∈ ms, Exact m.2) → Exact (.obj ms)

theorem Value.exact_arr_iff {items : List Value} :
    (Value.arr items).Exact ↔ ∀ v ∈ items, v.Exact :=
  ⟨fun | .arr h => h, .arr⟩

theorem Value.exact_obj_iff {ms : Members} :
    (Value.obj ms).Exact ↔ (Members.names ms).Nodup ∧ ∀ m ∈ ms, m.2.Exact :=
  ⟨fun | .obj hnames h => ⟨hnames, h⟩, fun h => .obj h.1 h.2⟩

/-- The marks of a layout are a comma and a colon with nothing but blanks behind them. -/
structure Layout.Spaces (l : Layout) (item name : List Char) : Prop where
  item_eq : l.itemMark = ',' :: item
  name_eq : l.nameMark = ':' :: name
  item_blank : ∀ c ∈ item, isJsonBlank c = true
  name_blank : ∀ c ∈ name, isJsonBlank c = true

theorem Layout.spaces_compact : compact.Spaces [] [] := ⟨rfl, rfl, by simp, by simp⟩

theorem Layout.spaces_spaced : spaced.Spaces [' '] [' '] :=
  ⟨rfl, rfl, blank_space, blank_space⟩

theorem Layout.spaces_pretty : pretty.Spaces [] [' '] := ⟨rfl, rfl, by simp, blank_space⟩

/-- Line breaks are blanks. -/
theorem Layout.isJsonBlank_lineBreak (l : Layout) (depth : Nat) :
    ∀ c ∈ l.lineBreak depth, isJsonBlank c = true := by
  intro c hc
  unfold lineBreak at hc
  split at hc
  · simp at hc
  · rcases List.mem_cons.mp hc with rfl | hc
    · decide
    · rw [List.eq_of_mem_replicate hc]
      decide

namespace Value

section Layout

variable {l : Layout} {item name : List Char}

/-- The items of an array, each of which is read back. -/
theorem writtenItems (hl : l.Spaces item name) (depth : Nat) {blanks : List Char}
    (hblanks : ∀ c ∈ blanks, isJsonBlank c = true) : ∀ {vs : List Value} {v : Value}
    {before : List Char}, (∀ c ∈ before, isJsonBlank c = true) →
    (∀ w ∈ v :: vs, Written (w.write l depth) w) →
    WrittenItems (before ++ (v.write l depth ++ (writeItems l depth vs ++ blanks))) (v :: vs)
  | [], v, before, hbefore, h => by
    exact .last hbefore (h v List.mem_cons_self) hblanks
  | w :: vs, v, before, hbefore, h => by
    -- What follows the comma belongs to the next item.
    have hmark : ∀ c ∈ item ++ l.lineBreak depth, isJsonBlank c = true :=
      List.forall_mem_append.mpr ⟨hl.item_blank, l.isJsonBlank_lineBreak depth⟩
    have hrest := writtenItems hl depth hblanks hmark
      fun x hx => h x (List.mem_cons_of_mem v hx)
    have := WrittenItems.cons hbefore (h v List.mem_cons_self) hrest
    simpa [writeItems, hl.item_eq] using this

/-- The members of an object, the values of which are read back. -/
theorem writtenMembers (hl : l.Spaces item name) (depth : Nat) {blanks : List Char}
    (hblanks : ∀ c ∈ blanks, isJsonBlank c = true) : ∀ {ms : Members} {k : String} {v : Value},
    (∀ m ∈ (k, v) :: ms, Written (m.2.write l depth) m.2) →
    WrittenMembers (quoted l.ascii k.toList ++ (l.nameMark ++ (v.write l depth
      ++ (writeMembers l depth ms ++ blanks)))) ((k, v) :: ms)
  | [], k, v, h => by
    have hmember := WrittenMember.intro l.ascii k hl.name_blank (h (k, v) List.mem_cons_self)
    simpa [writeMembers, hl.name_eq] using WrittenMembers.last hmember hblanks
  | (j, w) :: ms, k, v, h => by
    have hmark : ∀ c ∈ item ++ l.lineBreak depth, isJsonBlank c = true :=
      List.forall_mem_append.mpr ⟨hl.item_blank, l.isJsonBlank_lineBreak depth⟩
    have hrest := writtenMembers hl depth hblanks
      fun x hx => h x (List.mem_cons_of_mem _ hx)
    have hmember := WrittenMember.intro l.ascii k hl.name_blank (h (k, v) List.mem_cons_self)
    have := WrittenMembers.cons hmember (hrest.blanks hmark)
    simpa [writeMembers, hl.name_eq, hl.item_eq] using this

/-- **What is written for a value is read back**, in every layout and at every depth. -/
theorem Exact.written (hl : l.Spaces item name) {v : Value} (h : v.Exact) :
    ∀ depth, Written (v.write l depth) v := by
  -- The depth grows on the way into a container, so it is left open in the induction.
  induction h with
  | null => exact fun _ => written_of_readWord rfl
  | bool b => exact fun _ => written_bool b
  | int n => exact fun _ => written_int n
  | str s => exact fun _ => written_quoted l.ascii s
  | @arr items _ ih =>
    intro depth
    cases items with
    | nil => simpa [write] using written_emptyArray (List.forall_mem_nil _)
    | cons v vs =>
      have := writtenItems hl (depth + 1) (l.isJsonBlank_lineBreak depth)
        (l.isJsonBlank_lineBreak (depth + 1)) fun w hw => ih w hw (depth + 1)
      simpa [write] using this.bracketed
  | @obj ms hnames _ ih =>
    intro depth
    cases ms with
    | nil => simpa [write] using written_emptyObject (List.forall_mem_nil _)
    | cons m ms =>
      obtain ⟨k, v⟩ := m
      have := writtenMembers hl (depth + 1) (l.isJsonBlank_lineBreak depth)
        fun m hm => ih m hm (depth + 1)
      have := (this.blanks (l.isJsonBlank_lineBreak (depth + 1))).braced
      rw [Members.ofPairs_of_nodup hnames] at this
      simpa [write] using this

end Layout

end Value

end SchemaAssist.Json
