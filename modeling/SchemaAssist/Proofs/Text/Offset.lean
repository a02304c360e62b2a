/-
# Offsets and indices

An editor's offset for an index into a text leads back to that index, whatever the editor counts.
An offset need not come from an index: it may lie between the halves of a surrogate pair, or outside
the text.  It then stands for the last index whose own offset it reaches.

* `toIndex_toOffset`: the offset of an index leads back to the index;
* `toOffset_le_iff`: an index lies at or before the index of an offset exactly when its own offset
  lies at or before the offset;
* `offsets_adjoint`: what follows from that, for all offsets and all indices.
-/
import SchemaAssist.Text.Offset

namespace SchemaAssist.Text

/-! ## 1. There and back -/

/-- The units of a text hold exactly its characters. -/
theorem fitting_append (e : Encoding) (b : List Char) : ∀ a : List Char,
    fitting e (a ++ b) (e.size a) = a.length
  | [] => by
    cases b with
    | nil => rfl
    | cons c cs =>
      have := e.width_pos c
      simp only [List.nil_append, Encoding.size_nil, fitting, List.length_nil]
      rw [if_neg (by omega)]
  | c :: a => by
    have ih := fitting_append e b a
    simp [fitting, ih]

/-- **The offset of an index leads back to the index.** -/
theorem toIndex_toOffset (e : Encoding) {text : List Char} {n : Nat} (h : n ≤ text.length) :
    toIndex e text (toOffset e text n) = n := by
  have hfit := fitting_append e (text.drop n) (text.take n)
  rw [List.take_append_drop, List.length_take, Nat.min_eq_left h] at hfit
  simpa [toIndex, toOffset] using hfit

/-! ## 2. Offsets that come from no index -/

/-- So many characters fit into some units exactly when they take no more. -/
theorem le_fitting_iff (e : Encoding) : ∀ {text : List Char} {n : Nat}, n ≤ text.length →
    ∀ units, n ≤ fitting e text units ↔ e.size (text.take n) ≤ units
  | _, 0, _, units => by simp
  | c :: cs, n + 1, h, units => by
    have ih := le_fitting_iff e (Nat.le_of_succ_le_succ h) (units - e.width c)
    rw [List.take_succ_cons, Encoding.size_cons, fitting]
    split
    · rw [Nat.add_le_add_iff_right, ih]
      omega
    · omega

/-- **Offsets and indices are compared alike on both sides.** -/
theorem toOffset_le_iff (e : Encoding) {text : List Char} {i o : Int} (hi : i ≤ text.length)
    (ho : 0 ≤ o) : (toOffset e text i : Int) ≤ o ↔ i ≤ toIndex e text o := by
  have hlength : i.toNat ≤ text.length := by omega
  have hfit := le_fitting_iff e hlength o.toNat
  rw [toOffset, toIndex]
  omega

section Clamping

variable {e : Encoding} {text : List Char} {o : Int}

/-- Offsets before the text stand for its start. -/
theorem toIndex_of_nonpos (h : o ≤ 0) : toIndex e text o = 0 := by
  have hunits : o.toNat = 0 := by omega
  rw [toIndex, hunits]
  cases text with
  | nil => rfl
  | cons c cs =>
    have := e.width_pos c
    rw [fitting, if_neg (by omega)]

/-- Offsets behind the text stand for its end. -/
theorem toIndex_of_size_le (h : (e.size text : Int) ≤ o) : toIndex e text o = text.length := by
  refine Nat.le_antisymm (toIndex_le_length e text o) ?_
  rw [toIndex, le_fitting_iff e (Nat.le_refl _), List.take_length]
  omega

/-- An offset between those of an index and of the next one stands for the first of the two. -/
theorem toIndex_of_between {i : Int} (hfrom : (toOffset e text i : Int) ≤ o)
    (hto : o < toOffset e text (i + 1)) : (toIndex e text o : Int) = i := by
  -- Outside the text two indices in a row have the same offset.
  have hpos : 0 ≤ i := by
    refine Int.not_lt.mp fun h => ?_
    have hclamp : (i + 1).toNat = i.toNat := by omega
    rw [toOffset, hclamp] at hto
    rw [toOffset] at hfrom
    omega
  have hlt : i < text.length := by
    refine Int.not_le.mp fun h => ?_
    rw [toOffset, List.take_of_length_le (by omega)] at hfrom hto
    omega
  have ho : 0 ≤ o := by omega
  have hfirst : i ≤ toIndex e text o := (toOffset_le_iff e (by omega) ho).mp hfrom
  have hnext : ¬ (i + 1 ≤ toIndex e text o) := by
    rw [← toOffset_le_iff e (by omega) ho]
    omega
  omega

end Clamping

theorem toIndex_le_toIndex (e : Encoding) (text : List Char) {o o' : Int} (h : o ≤ o') :
    toIndex e text o ≤ toIndex e text o' := by
  have hfit := (le_fitting_iff e (fitting_le_length e text o.toNat) o.toNat).mp (Nat.le_refl _)
  rw [toIndex, toIndex, le_fitting_iff e (fitting_le_length e text _)]
  omega

theorem toOffset_le_toOffset (e : Encoding) (text : List Char) {i j : Int} (h : i ≤ j) :
    toOffset e text i ≤ toOffset e text j := by
  have hle : i.toNat ≤ j.toNat := by omega
  obtain ⟨rest, hrest⟩ := List.take_prefix_take_left (l := text) hle
  rw [toOffset, toOffset, ← hrest, Encoding.size_append]
  omega

/-- **Offsets and indices of a text are adjoint.**  Hence an index is found again from its offset,
an offset inside a character, such as one between the halves of a surrogate pair, stands for the
index before the character, offsets outside the text are clamped, and both directions are
monotone. -/
theorem offsets_adjoint (e : Encoding) (text : List Char) :
    (∀ i o : Int, 0 ≤ i → i ≤ text.length → 0 ≤ o →
        ((toOffset e text i : Int) ≤ o ↔ i ≤ toIndex e text o))
      ∧ (∀ o : Int, toIndex e text o ≤ text.length)
      ∧ (∀ i : Int, 0 ≤ i → i ≤ text.length → (toIndex e text (toOffset e text i) : Int) = i)
      ∧ (∀ i o : Int, toOffset e text i ≤ o → o < toOffset e text (i + 1) →
        (toIndex e text o : Int) = i)
      ∧ (∀ o : Int, o ≤ 0 → toIndex e text o = 0)
      ∧ (∀ o : Int, e.size text ≤ o → toIndex e text o = text.length)
      ∧ (∀ o o' : Int, o ≤ o' → toIndex e text o ≤ toIndex e text o')
      ∧ (∀ i j : Int, i ≤ j → toOffset e text i ≤ toOffset e text j) := by
  refine ⟨?_, toIndex_le_length e text, ?_, ?_, ?_, ?_, ?_, ?_⟩
  · intro i o _ hi ho
    exact toOffset_le_iff e hi ho
  · intro i hpos hi
    obtain ⟨n, rfl⟩ := Int.eq_ofNat_of_zero_le hpos
    rw [toIndex_toOffset e (by omega)]
  · intro i o hfrom hto
    exact toIndex_of_between hfrom hto
  · intro o ho
    exact toIndex_of_nonpos ho
  · intro o ho
    exact toIndex_of_size_le ho
  · intro o o' h
    exact toIndex_le_toIndex e text h
  · intro i j h
    exact toOffset_le_toOffset e text h

/-- In `a😀b` the offset 2 lies between the halves of a surrogate pair, behind that of index 1 and
before that of index 2. -/
theorem offsets_adjoint_pair :
    (toOffset .utf16 ['a', '😀', 'b'] 1 : Int) ≤ 2
      ∧ (2 : Int) < toOffset .utf16 ['a', '😀', 'b'] (1 + 1)
      ∧ (toIndex .utf16 ['a', '😀', 'b'] 2 : Int) = 1 := by
  have hfrom : (toOffset .utf16 ['a', '😀', 'b'] 1 : Int) ≤ 2 := by decide
  have hto : (2 : Int) < toOffset .utf16 ['a', '😀', 'b'] (1 + 1) := by decide
  obtain ⟨-, -, -, hbetween, -⟩ := offsets_adjoint .utf16 ['a', '😀', 'b']
  exact ⟨hfrom, hto, hbetween 1 2 hfrom hto⟩

end SchemaAssist.Text
