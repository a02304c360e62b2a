/-
# The order of enum members

An editor sorts items by their keys, and the members of an enum have their positions for keys: three
digits with zeros in front, and more where a position needs more.  Keys of the same width compare as
the positions do.  Between keys of different widths the shorter one comes first exactly if its
position is no greater than the leading digits of the other, which fails for 999 and 1000.

* `positionKey_lt_iff`: how the keys of any two positions compare;
* `pairwise_positionKey`, `le_of_pairwise_positionKey`: the keys of the first positions rise up to a
  thousand of them, and no further;
* `enum_rises_iff`: so an editor shows the members of an enum in their order exactly if there are no
  more than a thousand.
-/
import Mathlib.Algebra.Order.Group.Nat
import Mathlib.Data.List.Nodup
import Mathlib.Data.String.Basic
import SchemaAssist.Completion.Suggest

namespace SchemaAssist.Completion

open SchemaAssist.Cursor SchemaAssist.Json SchemaAssist.Schema

/-! ## 1. Digits of a fixed width -/

/-- Texts with beginnings of the same length are compared by these first. -/
theorem append_lt_append_iff : ∀ {a b : List Char}, a.length = b.length → ∀ c d : List Char,
    a ++ c < b ++ d ↔ a < b ∨ a = b ∧ c < d
  | [], [], _, c, d => by simp
  | x :: a, y :: b, h, c, d => by
    have ih := append_lt_append_iff (Nat.succ.inj h) c d
    simp only [List.cons_append, List.cons_lt_cons_iff, List.cons.injEq, ih, and_or_left,
      or_assoc, and_assoc]

/-- The last `width` decimal digits of a number. -/
def lastDigits : Nat → Nat → List Char
  | 0, _ => []
  | width + 1, n => lastDigits width (n / 10) ++ [Nat.digitChar (n % 10)]

@[simp] theorem length_lastDigits (width n : Nat) : (lastDigits width n).length = width := by
  induction width generalizing n with
  | zero => rfl
  | succ width ih => simp [lastDigits, ih]

theorem lastDigits_zero (width : Nat) : lastDigits width 0 = List.replicate width '0' := by
  induction width with
  | zero => rfl
  | succ width ih =>
    rw [lastDigits, Nat.zero_div, ih, List.replicate_succ']
    rfl

/-- A number with no more digits than that is written with zeros in front. -/
theorem lastDigits_eq {width n : Nat} (h : (Nat.toDigits 10 n).length ≤ width) :
    lastDigits width n
      = List.replicate (width - (Nat.toDigits 10 n).length) '0' ++ Nat.toDigits 10 n := by
  induction width generalizing n with
  | zero =>
    have := Nat.length_toDigits_pos (b := 10) (n := n)
    omega
  | succ width ih =>
    by_cases hn : n < 10
    · rw [lastDigits, Nat.toDigits_of_lt_base hn, Nat.div_eq_of_lt hn, Nat.mod_eq_of_lt hn,
        lastDigits_zero]
      rfl
    · have hdigits : Nat.toDigits 10 n = Nat.toDigits 10 (n / 10) ++ [Nat.digitChar (n % 10)] :=
        Nat.toDigits_of_base_le (by decide) (by omega)
      rw [hdigits, List.length_append, List.length_singleton] at h ⊢
      rw [lastDigits, ih (by omega), List.append_assoc, Nat.add_sub_add_right]

/-- The digits of a number in two parts. -/
theorem lastDigits_add (width more n : Nat) :
    lastDigits (width + more) n = lastDigits width (n / 10 ^ more) ++ lastDigits more n := by
  induction more generalizing n with
  | zero => simp [lastDigits]
  | succ more ih =>
    rw [← Nat.add_assoc, lastDigits, ih, lastDigits, List.append_assoc, Nat.div_div_eq_div_mul,
      Nat.pow_succ']

theorem digitChar_lt_iff : ∀ a < 10, ∀ b < 10,
    Nat.digitChar a < Nat.digitChar b ↔ a < b := by
  decide

theorem digitChar_inj : ∀ a < 10, ∀ b < 10, Nat.digitChar a = Nat.digitChar b ↔ a = b := by
  decide

theorem mod_pow_succ (n width : Nat) :
    n % 10 ^ (width + 1) = n % 10 + 10 * (n / 10 % 10 ^ width) := by
  rw [Nat.pow_succ', Nat.mod_mul]

theorem lastDigits_inj {width i j : Nat} :
    lastDigits width i = lastDigits width j ↔ i % 10 ^ width = j % 10 ^ width := by
  induction width generalizing i j with
  | zero => simp [lastDigits, Nat.mod_one]
  | succ width ih =>
    have hdigit := digitChar_inj (i % 10) (by omega) (j % 10) (by omega)
    rw [lastDigits, lastDigits, List.append_eq_append_iff_of_size_eq_left (by simp), ih,
      List.cons.injEq, hdigit, mod_pow_succ, mod_pow_succ]
    simp only [and_true]
    omega

/-- **Digits of one width compare as the numbers do.** -/
theorem lastDigits_lt_iff {width i j : Nat} :
    lastDigits width i < lastDigits width j ↔ i % 10 ^ width < j % 10 ^ width := by
  induction width generalizing i j with
  | zero => simp [lastDigits, Nat.mod_one]
  | succ width ih =>
    have hdigit := digitChar_lt_iff (i % 10) (by omega) (j % 10) (by omega)
    rw [lastDigits, lastDigits, append_lt_append_iff (by simp), ih, lastDigits_inj,
      List.cons_lt_cons_iff, hdigit, mod_pow_succ, mod_pow_succ]
    simp only [List.not_lt_nil, and_false, or_false]
    omega

/-! ## 2. Keys -/

namespace Engine

theorem length_positionKey (position : Nat) :
    (positionKey position).length = max 3 (Nat.toDigits 10 position).length := by
  simp only [positionKey, String.length_ofList, List.length_append, List.length_replicate]
  omega

theorem toList_positionKey (position : Nat) :
    (positionKey position).toList = lastDigits (positionKey position).length position := by
  have hwidth := length_positionKey position
  rw [lastDigits_eq (by omega), hwidth, positionKey, String.toList_ofList]
  congr 2
  omega

theorem length_positionKey_le_iff {position width : Nat} (h : 3 ≤ width) :
    (positionKey position).length ≤ width ↔ position < 10 ^ width := by
  rw [length_positionKey, Nat.max_le, ← Nat.length_toDigits_le_iff (by decide) (by omega)]
  exact and_iff_right h

theorem three_le_length_positionKey (position : Nat) : 3 ≤ (positionKey position).length := by
  rw [length_positionKey]
  exact Nat.le_max_left ..

theorem lt_pow_length_positionKey (position : Nat) :
    position < 10 ^ (positionKey position).length :=
  (length_positionKey_le_iff (three_le_length_positionKey position)).mp (Nat.le_refl _)

/-- **The key of a position comes before that of a later one exactly if the position is no greater
than the leading digits of the later one.** -/
theorem positionKey_lt_iff {i j : Nat} (h : i < j) :
    positionKey i < positionKey j
      ↔ i ≤ j / 10 ^ ((positionKey j).length - (positionKey i).length) := by
  have hi := lt_pow_length_positionKey i
  have hj := lt_pow_length_positionKey j
  have hle : (positionKey i).length ≤ (positionKey j).length :=
    (length_positionKey_le_iff (three_le_length_positionKey j)).mpr (Nat.lt_trans h hj)
  obtain ⟨more, hmore⟩ := Nat.exists_eq_add_of_le hle
  have hleading : j / 10 ^ more < 10 ^ (positionKey i).length := by
    rwa [Nat.div_lt_iff_lt_mul (Nat.pow_pos (by decide)), ← Nat.pow_add, ← hmore]
  -- The digits of the later position are the leading ones and as many more as it is wider.
  rw [String.lt_iff, toList_positionKey i, toList_positionKey j, hmore, lastDigits_add,
    Nat.add_sub_cancel_left, ← List.append_nil (lastDigits (positionKey i).length i),
    append_lt_append_iff (by simp), lastDigits_lt_iff, lastDigits_inj, Nat.mod_eq_of_lt hi,
    Nat.mod_eq_of_lt hleading]
  cases more with
  | zero =>
    rw [Nat.pow_zero, Nat.div_one]
    omega
  | succ more =>
    have hnil : [] < lastDigits (more + 1) j := by
      obtain ⟨c, cs, hcs⟩ := List.exists_cons_of_length_pos
        (Nat.lt_of_lt_of_eq more.succ_pos (length_lastDigits (more + 1) j).symm)
      rw [hcs]
      exact List.nil_lt_cons c cs
    rw [Nat.le_iff_lt_or_eq, and_iff_left hnil]

example : positionKey 7 = "007" ∧ positionKey 999 = "999" ∧ positionKey 1000 = "1000" := by decide

/-- Up to a thousand positions have keys that rise. -/
theorem pairwise_positionKey {count : Nat} (h : count ≤ 1000) :
    ((List.range count).map positionKey).Pairwise (· < ·) := by
  have hwidth : ∀ i < count, (positionKey i).length = 3 := by
    intro i hi
    exact Nat.le_antisymm ((length_positionKey_le_iff (Nat.le_refl 3)).mpr (Nat.lt_of_lt_of_le hi h))
      (three_le_length_positionKey i)
  rw [List.pairwise_map]
  refine List.pairwise_lt_range.imp_of_mem fun {i j} hi hj hlt => ?_
  rw [positionKey_lt_iff hlt, hwidth i (List.mem_range.mp hi), hwidth j (List.mem_range.mp hj)]
  omega

/-- More than a thousand do not even stand in order: behind 999 comes 1000. -/
theorem le_of_pairwise_positionKey {count : Nat}
    (h : ((List.range count).map positionKey).Pairwise (· ≤ ·)) : count ≤ 1000 := by
  refine Nat.not_lt.mp fun hcount => ?_
  have hle : positionKey 999 ≤ positionKey 1000 := by
    have := List.pairwise_iff_getElem.mp h 999 1000 (by simp; omega) (by simpa) (by decide)
    simpa using this
  exact absurd hle (by decide)

end Engine

/-! ## 3. Items -/

/-- The items for members of an enum among some items. -/
def enumOffers (items : List Item) : List Item :=
  items.filter fun item => item.kind = .enumMember

/-- The keys of the items compare as those of their positions do.  So they rise exactly if there are
no more than a thousand items, and then sorting them by their keys gives them in this order. -/
structure RisesToThousand (offered : List Item) : Prop where
  /-- An item comes before a later one exactly if its position is no greater than the leading digits
  of the position of the later one. -/
  lt_iff : ∀ i j (hij : i < j) (hj : j < offered.length),
    offered[i].sortText < offered[j].sortText
      ↔ i ≤ j / 10 ^ (offered[j].sortText.length - offered[i].sortText.length)
  /-- The keys rise up to a thousand items. -/
  rising_iff : offered.Pairwise (fun a b => a.sortText < b.sortText) ↔ offered.length ≤ 1000
  /-- However the items are sorted by their keys, they come out in this order up to a thousand. -/
  shown_iff : ∀ shown : List Item, shown.Perm offered →
    shown.Pairwise (fun a b => a.sortText ≤ b.sortText) →
    (shown = offered ↔ offered.length ≤ 1000)

theorem enumOffers_eq_nil {items : List Item} (h : ∀ item ∈ items, item.kind ≠ .enumMember) :
    enumOffers items = [] := by
  simpa [enumOffers] using h

theorem enumOffers_append (a b : List Item) :
    enumOffers (a ++ b) = enumOffers a ++ enumOffers b :=
  List.filter_append a b

theorem enumOffers_enumItems (n : Node) :
    enumOffers (Engine.enumItems n) = Engine.enumItems n := by
  rw [enumOffers, List.filter_eq_self]
  intro item hitem
  obtain ⟨member, -, rfl⟩ := List.mem_map.mp hitem
  rfl

theorem enumOffers_structureItems (e : Engine) (n : Node) (indent : String) :
    enumOffers (e.structureItems n indent) = [] := by
  apply enumOffers_eq_nil
  intro item hitem
  cases n with
  | scalar => cases hitem
  | object hints properties required =>
    cases properties with
    | nil => cases hitem
    | cons =>
      rcases Engine.mem_objectItems_iff.mp hitem with rfl | ⟨rfl, -⟩ <;> exact ItemKind.noConfusion
  | array hints items =>
    cases items with
    | none => cases hitem
    | some =>
      rw [List.mem_singleton.mp hitem]
      exact ItemKind.noConfusion

/-- In value position the members of the enum of the node are offered. -/
theorem enumOffers_valueItems (e : Engine) (n : Node) (indent : String) :
    enumOffers (e.valueItems n indent) = Engine.enumItems n := by
  rw [Engine.valueItems, enumOffers_append, enumOffers_structureItems, enumOffers_enumItems,
    List.nil_append]

/-- At any cursor the members of one enum are offered, or none. -/
theorem exists_enumOffers_items (e : Engine) (root : Node) (text : List Char) (offset : Int) :
    ∃ n, enumOffers (e.items root text offset) = Engine.enumItems n := by
  have hnone : ∀ {items : List Item}, (∀ item ∈ items, item.kind ≠ .enumMember) →
      ∃ n, enumOffers items = Engine.enumItems n :=
    fun h => ⟨.scalar { types := [] }, enumOffers_eq_nil h⟩
  rw [Engine.items, Engine.itemsFor]
  split
  · apply hnone
    intro item hitem
    rcases List.mem_cons.mp hitem with rfl | hitem
    · exact ItemKind.noConfusion
    · obtain ⟨m, -, rfl⟩ := List.mem_map.mp hitem
      exact ItemKind.noConfusion
  · split
    · split
      · apply hnone
        intro item hitem
        obtain ⟨m, -, rfl⟩ := List.mem_map.mp hitem
        exact ItemKind.noConfusion
      · exact hnone (List.forall_mem_nil _)
    · split
      · exact ⟨_, enumOffers_valueItems e _ _⟩
      · exact hnone (List.forall_mem_nil _)

/-! ## 4. The order of an enum -/

theorem length_enumItems (n : Node) :
    (Engine.enumItems n).length = (n.hints.enum.getD []).length := by
  rw [Engine.enumItems, List.length_map, List.length_zipIdx]

theorem sortText_getElem_enumItems {n : Node} {i : Nat} (h : i < (Engine.enumItems n).length) :
    (Engine.enumItems n)[i].sortText = Engine.positionKey i := by
  simp [Engine.enumItems, Engine.enumItem]

theorem map_sortText_enumItems (n : Node) :
    (Engine.enumItems n).map (·.sortText)
      = (List.range (Engine.enumItems n).length).map Engine.positionKey := by
  refine List.ext_getElem (by simp) fun i hi _ => ?_
  rw [List.length_map] at hi
  rw [List.getElem_map, sortText_getElem_enumItems hi, List.getElem_map, List.getElem_range]

theorem map_insertText_enumItems (n : Node) :
    (Engine.enumItems n).map (·.insertText) = (n.hints.enum.getD []).map (·.text .spaced) := by
  refine List.ext_getElem (by simp [length_enumItems]) fun i _ _ => ?_
  simp [Engine.enumItems, Engine.enumItem]

theorem risesToThousand_enumItems (n : Node) : RisesToThousand (Engine.enumItems n) := by
  have hrises : (Engine.enumItems n).length ≤ 1000 →
      (Engine.enumItems n).Pairwise (fun a b => a.sortText < b.sortText) := by
    intro h
    rw [← List.pairwise_map, map_sortText_enumItems]
    exact Engine.pairwise_positionKey h
  have hstops : (Engine.enumItems n).Pairwise (fun a b => a.sortText ≤ b.sortText) →
      (Engine.enumItems n).length ≤ 1000 := by
    intro h
    rw [← List.pairwise_map, map_sortText_enumItems] at h
    exact Engine.le_of_pairwise_positionKey h
  refine ⟨?_, ⟨fun h => hstops (h.imp le_of_lt), hrises⟩, ?_⟩
  · intro i j hij hj
    rw [sortText_getElem_enumItems, sortText_getElem_enumItems hj]
    exact Engine.positionKey_lt_iff hij
  · intro shown hperm hsorted
    refine ⟨fun heq => hstops (heq ▸ hsorted), fun hlength => ?_⟩
    have hkeys : ((Engine.enumItems n).map (·.sortText)).Nodup := by
      rw [List.nodup_iff_pairwise_ne, List.pairwise_map]
      exact (hrises hlength).imp ne_of_lt
    refine List.Perm.eq_of_pairwise ?_ hsorted ((hrises hlength).imp le_of_lt) hperm
    intro a b ha hb hab hba
    exact List.inj_on_of_nodup_map hkeys (hperm.mem_iff.mp ha) hb (le_antisymm hab hba)

/-- **The members of an enum keep their order up to a thousand of them.** -/
theorem enum_rises_iff (e : Engine) :
    (∀ (n : Node) (indent : String),
        (enumOffers (e.valueItems n indent)).map (·.insertText)
            = (n.hints.enum.getD []).map (·.text .spaced)
          ∧ RisesToThousand (enumOffers (e.valueItems n indent)))
      ∧ ∀ (root : Node) (text : List Char) (offset : Int),
        RisesToThousand (enumOffers (e.items root text offset)) := by
  refine ⟨fun n indent => ?_, fun root text offset => ?_⟩
  · rw [enumOffers_valueItems]
    exact ⟨map_insertText_enumItems n, risesToThousand_enumItems n⟩
  · obtain ⟨n, hn⟩ := exists_enumOffers_items e root text offset
    rw [hn]
    exact risesToThousand_enumItems n

/-- A number from an enum that lists the numbers below `count`. -/
def countingNode (count : Nat) : Node :=
  .scalar { types := ["integer"], enum := some ((List.range count).map fun i : Nat => .int i) }

/-- **The keys of an enum do not rise whatever its length.** -/
theorem not_forall_enum_rises :
    ¬ ∀ (e : Engine) (n : Node) (indent : String),
      (enumOffers (e.valueItems n indent)).Pairwise fun a b => a.sortText < b.sortText := by
  intro hall
  have hrises := hall {} (countingNode 1001) ""
  rw [enumOffers_valueItems, (risesToThousand_enumItems _).rising_iff, length_enumItems,
    countingNode, Node.hints, Option.getD_some, List.length_map, List.length_range] at hrises
  exact absurd hrises (by decide)

end SchemaAssist.Completion
