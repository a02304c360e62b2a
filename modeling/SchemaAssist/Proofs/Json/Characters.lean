/-
# The characters of what is written

Around scalars a layout writes its marks and line breaks, and of a scalar only the characters of a
string are not printable ASCII to begin with.  Those are escaped: the controls in every layout, all
that is not ASCII in an `ascii` one.  So the text of a value on one line holds no controls, and the
published text is ASCII, whatever strings the value holds.

`Layout.Uses` is what a property of characters asks of a layout, and `Value.Exact.forall_mem_write`
carries it to the whole text.
-/
import Mathlib.Data.Bool.AllAny
import SchemaAssist.Proofs.Json.Writing

namespace SchemaAssist.Json

open SchemaAssist.Text

/-! ## 1. Printable characters -/

/-- The character lies between the space and the tilde. -/
def IsPrintableAscii (c : Char) : Prop :=
  0x20 ≤ c.toNat ∧ c.toNat ≤ 0x7e

instance (c : Char) : Decidable (IsPrintableAscii c) := inferInstanceAs (Decidable (_ ∧ _))

theorem isPrintableAscii_hexDigits (width : Nat) : ∀ n, ∀ c ∈ hexDigits width n,
    IsPrintableAscii c := by
  have hdigit : ∀ d < 16, IsPrintableAscii (Nat.digitChar d) := by decide
  induction width with
  | zero => simp [hexDigits]
  | succ width ih =>
    intro n c hc
    rw [hexDigits, List.mem_append, List.mem_singleton] at hc
    rcases hc with hc | rfl
    · exact ih _ c hc
    · exact hdigit _ (Nat.mod_lt _ (by decide))

theorem isPrintableAscii_unitEscape (unit : Nat) : ∀ c ∈ unitEscape unit, IsPrintableAscii c :=
  List.forall_mem_cons.mpr ⟨by decide,
    List.forall_mem_cons.mpr ⟨by decide, isPrintableAscii_hexDigits 4 unit⟩⟩

/-- What is written for a character of a string is printable ASCII, unless the literal may hold
other characters; even then it is no control. -/
theorem isPrintableAscii_escapeChar {ascii : Bool} {c d : Char} (h : d ∈ escapeChar ascii c) :
    IsPrintableAscii d ∨ ascii = false ∧ 0x20 ≤ d.toNat := by
  have hpair : ∀ {a b : Char}, IsPrintableAscii a → IsPrintableAscii b → d ∈ [a, b] →
      IsPrintableAscii d := by
    intro a b ha hb hd
    simp only [List.mem_cons, List.not_mem_nil, or_false] at hd
    rcases hd with rfl | rfl
    · exact ha
    · exact hb
  unfold escapeChar at h
  -- The escapes by a letter come first, one after the other.
  iterate 7
    split at h
    · exact .inl (hpair (by decide) (by decide) h)
  split at h
  · exact .inl (isPrintableAscii_unitEscape _ d h)
  split at h
  · left
    split at h
    · exact isPrintableAscii_unitEscape _ d h
    · exact (List.mem_append.mp h).elim (isPrintableAscii_unitEscape _ d)
        (isPrintableAscii_unitEscape _ d)
  · rename_i hcontrol hascii
    rw [List.mem_singleton] at h
    subst h
    cases ascii with
    | false => exact .inr ⟨rfl, by omega⟩
    | true =>
      have htilde : ¬ 0x7e < d.toNat := by simpa using hascii
      exact .inl ⟨by omega, by omega⟩

theorem isPrintableAscii_integerText (n : Int) : ∀ c ∈ integerText n, IsPrintableAscii c := by
  have hdigits : ∀ c ∈ Nat.toDigits 10 n.natAbs, IsPrintableAscii c := by
    intro c hc
    have hdigit := Nat.isDigit_of_mem_toDigits (by decide) (by decide) hc
    simp only [Char.isDigit, Bool.and_eq_true, decide_eq_true_eq, ge_iff_le,
      UInt32.le_iff_toNat_le] at hdigit
    exact ⟨Nat.le_trans (by decide) hdigit.1, Nat.le_trans hdigit.2 (by decide)⟩
  unfold integerText
  split
  · exact List.forall_mem_cons.mpr ⟨by decide, hdigits⟩
  · exact hdigits

theorem isPrintableAscii_boolText (b : Bool) : ∀ c ∈ boolText b, IsPrintableAscii c := by
  cases b <;> exact List.all_iff_forall_prop.mp (by decide)

/-! ## 2. Layouts -/

/-- All that a layout may write of values without doubles has a property. -/
structure Layout.Uses (l : Layout) (p : Char → Prop) : Prop where
  printable : ∀ c, IsPrintableAscii c → p c
  escape : ∀ c, ∀ d ∈ escapeChar l.ascii c, p d
  itemMark : ∀ c ∈ l.itemMark, p c
  nameMark : ∀ c ∈ l.nameMark, p c
  lineBreak : ∀ depth, ∀ c ∈ l.lineBreak depth, p c

theorem Layout.spaces_published : published.Spaces [] [' '] :=
  ⟨rfl, rfl, by simp, blank_space⟩

/-- On one line no controls are written. -/
theorem Layout.uses_compact : compact.Uses fun c => 0x20 ≤ c.toNat where
  printable _ hc := hc.1
  escape _ _ hd := (isPrintableAscii_escapeChar hd).elim (·.1) (·.2)
  itemMark := List.all_iff_forall_prop.mp (by decide)
  nameMark := List.all_iff_forall_prop.mp (by decide)
  lineBreak _ := by simp [Layout.lineBreak, compact]

/-- What is published is ASCII. -/
theorem Layout.uses_published : published.Uses fun c => c.toNat < 0x80 where
  printable _ hc := Nat.lt_of_le_of_lt hc.2 (by decide)
  escape _ _ hd := by
    rcases isPrintableAscii_escapeChar hd with hd | ⟨hascii, -⟩
    · exact Nat.lt_of_le_of_lt hd.2 (by decide)
    · cases hascii
  itemMark := List.all_iff_forall_prop.mp (by decide)
  nameMark := List.all_iff_forall_prop.mp (by decide)
  lineBreak depth := by
    refine List.forall_mem_cons.mpr ⟨by decide, ?_⟩
    intro c hc
    rw [List.eq_of_mem_replicate hc]
    decide

namespace Layout.Uses

variable {l : Layout} {p : Char → Prop}

theorem quoted (h : l.Uses p) (text : List Char) : ∀ c ∈ quoted l.ascii text, p c := by
  have hquote : p '"' := h.printable _ (by decide)
  intro c hc
  rw [Json.quoted, List.mem_append, List.mem_cons, List.mem_singleton] at hc
  rcases hc with (rfl | hc) | rfl
  · exact hquote
  · obtain ⟨d, -, hd⟩ := List.mem_flatMap.mp hc
    exact h.escape d c hd
  · exact hquote

/-- The items after the first one. -/
theorem writeItems (h : l.Uses p) {depth : Nat} : ∀ {items : List Value},
    (∀ v ∈ items, ∀ c ∈ v.write l depth, p c) → ∀ c ∈ Value.writeItems l depth items, p c
  | [], _ => by simp [Value.writeItems]
  | v :: items, hitems => by
    obtain ⟨hv, hrest⟩ := List.forall_mem_cons.mp hitems
    simp only [Value.writeItems, List.forall_mem_append]
    exact ⟨⟨⟨h.itemMark, h.lineBreak depth⟩, hv⟩, h.writeItems hrest⟩

/-- The members after the first one. -/
theorem writeMembers (h : l.Uses p) {depth : Nat} : ∀ {ms : Members},
    (∀ m ∈ ms, ∀ c ∈ m.2.write l depth, p c) → ∀ c ∈ Value.writeMembers l depth ms, p c
  | [], _ => by simp [Value.writeMembers]
  | (k, v) :: ms, hms => by
    obtain ⟨hv, hrest⟩ := List.forall_mem_cons.mp hms
    simp only [Value.writeMembers, List.forall_mem_append]
    exact ⟨⟨⟨⟨⟨h.itemMark, h.lineBreak depth⟩, h.quoted _⟩, h.nameMark⟩, hv⟩,
      h.writeMembers hrest⟩

end Layout.Uses

/-! ## 3. Values -/

namespace Value.Exact

variable {v : Value}

/-- **Every character that is written for a value is one that the layout uses.** -/
theorem forall_mem_write {l : Layout} {p : Char → Prop} (hl : l.Uses p) (h : v.Exact) :
    ∀ depth, ∀ c ∈ v.write l depth, p c := by
  have hascii : ∀ {text : List Char}, (∀ c ∈ text, IsPrintableAscii c) → ∀ c ∈ text, p c :=
    fun htext c hc => hl.printable c (htext c hc)
  induction h with
  | null => exact fun _ => hascii (List.all_iff_forall_prop.mp (by simp only [write]; decide))
  | bool b => exact fun _ => hascii (by simpa only [write] using isPrintableAscii_boolText b)
  | int n => exact fun _ => hascii (by simpa only [write] using isPrintableAscii_integerText n)
  | str s => exact fun _ => by simpa only [write] using hl.quoted s.toList
  | @arr items _ ih =>
    intro depth
    cases items with
    | nil => exact hascii (List.all_iff_forall_prop.mp (by simp only [write]; decide))
    | cons v items =>
      obtain ⟨hv, hrest⟩ := List.forall_mem_cons.mp ih
      have hitems := hl.writeItems fun w hw => hrest w hw (depth + 1)
      simp only [write, List.forall_mem_cons, List.forall_mem_append, List.not_mem_nil,
        false_implies, implies_true, and_true]
      exact ⟨hl.printable _ (by decide), ⟨⟨⟨hl.lineBreak _, hv _⟩, hitems⟩, hl.lineBreak _⟩,
        hl.printable _ (by decide)⟩
  | @obj ms _ _ ih =>
    intro depth
    cases ms with
    | nil => exact hascii (List.all_iff_forall_prop.mp (by simp only [write]; decide))
    | cons m ms =>
      obtain ⟨k, v⟩ := m
      obtain ⟨hv, hrest⟩ := List.forall_mem_cons.mp ih
      have hmembers := hl.writeMembers fun m hm => hrest m hm (depth + 1)
      simp only [write, List.forall_mem_cons, List.forall_mem_append, List.not_mem_nil,
        false_implies, implies_true, and_true]
      exact ⟨hl.printable _ (by decide), ⟨⟨⟨⟨⟨hl.lineBreak _, hl.quoted _⟩, hl.nameMark⟩, hv _⟩,
        hmembers⟩, hl.lineBreak _⟩, hl.printable _ (by decide)⟩

/-- The text of a value is read back. -/
theorem read_text {l : Layout} {item name : List Char} (hl : l.Spaces item name) (h : v.Exact) :
    read? (v.text l).toList = some v := by
  rw [text, String.toList_ofList]
  exact (h.written hl 0).read

/-- The text of a value has the characters that the layout uses. -/
theorem forall_mem_text {l : Layout} {p : Char → Prop} (hl : l.Uses p) (h : v.Exact) :
    ∀ c ∈ (v.text l).toList, p c := by
  rw [text, String.toList_ofList]
  exact h.forall_mem_write hl 0

end Value.Exact

example : (Value.str "é😀\n").text .published = "\"\\u00e9\\ud83d\\ude00\\n\"" := by
  decide +kernel

end SchemaAssist.Json
