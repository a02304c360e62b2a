/-
# Where a marker stands

Occurrences of a marker are counted from left to right, and one that overlaps the occurrence counted
last is passed over.  The direction does not matter: the count is the greatest number of places at
which the marker stands and which do not overlap, for markers that overlap themselves and for the
empty one as well.

Splitting wants exactly one.  It then gives a text and an offset from which the marked document
comes back, whatever the marker is made of and whatever the offset counts: the index that the offset
stands for is where the marker has to be put in again.

* `isGreatest_occurrences`: what is counted;
* `splitMarked_restores`: when splitting fails, and how it is undone.
-/
import Mathlib.Data.List.Perm.Subperm
import Mathlib.Order.Bounds.Basic
import SchemaAssist.Proofs.Text.Offset
import SchemaAssist.Text.Marked

namespace SchemaAssist.Text

/-! ## 1. Places of a marker -/

/-- The marker stands in the text from an index on. -/
structure StandsAt (marker text : List Char) (i : Nat) : Prop where
  le_length : i ≤ text.length
  starts : marker <+: text.drop i

theorem standsAt_zero {marker text : List Char} : StandsAt marker text 0 ↔ marker <+: text :=
  ⟨fun h => h.starts, fun h => ⟨Nat.zero_le _, h⟩⟩

theorem standsAt_succ {marker cs : List Char} {c : Char} {i : Nat} :
    StandsAt marker (c :: cs) (i + 1) ↔ StandsAt marker cs i :=
  ⟨fun h => ⟨Nat.le_of_succ_le_succ h.le_length, h.starts⟩,
    fun h => ⟨Nat.succ_le_succ h.le_length, h.starts⟩⟩

/-- In the empty text only the empty marker stands. -/
theorem StandsAt.eq_nil {marker : List Char} {i : Nat} (h : StandsAt marker [] i) :
    marker = [] := by
  have := h.starts
  rwa [List.drop_nil, List.prefix_nil] at this

/-- Places of the marker from left to right, no two of which overlap. -/
structure Apart (marker text : List Char) (places : List Nat) : Prop where
  stands : ∀ i ∈ places, StandsAt marker text i
  /-- Each lies behind the ones before it and not inside their markers. -/
  apart : places.Pairwise fun i j => i < j ∧ i + marker.length ≤ j

section Apart

variable {marker text cs : List Char} {c : Char} {places : List Nat}

theorem apart_nil : Apart marker text [] :=
  ⟨by simp, .nil⟩

theorem apart_cons {i : Nat} : Apart marker text (i :: places)
    ↔ StandsAt marker text i ∧ (∀ j ∈ places, i < j ∧ i + marker.length ≤ j)
      ∧ Apart marker text places := by
  constructor
  · rintro ⟨hstands, hapart⟩
    obtain ⟨hi, hrest⟩ := List.forall_mem_cons.mp hstands
    obtain ⟨hbehind, hapart⟩ := List.pairwise_cons.mp hapart
    exact ⟨hi, hbehind, hrest, hapart⟩
  · rintro ⟨hi, hbehind, hrest, hapart⟩
    exact ⟨List.forall_mem_cons.mpr ⟨hi, hrest⟩, List.pairwise_cons.mpr ⟨hbehind, hapart⟩⟩

/-- One character more before the text moves places one further on. -/
theorem apart_map_succ : Apart marker (c :: cs) (places.map (· + 1)) ↔ Apart marker cs places := by
  induction places with
  | nil => simp [apart_nil]
  | cons i places ih => simp [apart_cons, standsAt_succ, ih, Nat.add_right_comm i 1]

/-- Places behind the first character are places of the text behind it. -/
theorem Apart.exists_map_succ (h : Apart marker (c :: cs) places) (hpos : ∀ i ∈ places, 0 < i) :
    ∃ later : List Nat, places = later.map (· + 1) ∧ Apart marker cs later := by
  have hlater : (places.map (· - 1)).map (· + 1) = places := by
    calc (places.map (· - 1)).map (· + 1)
        = places.map id := by
          rw [List.map_map]
          exact List.map_congr_left fun i hi => Nat.sub_add_cancel (hpos i hi)
      _ = places := List.map_id places
  rw [← hlater] at h
  exact ⟨_, hlater.symm, apart_map_succ.mp h⟩

end Apart

/-! ## 2. What is counted -/

section Counting

variable {marker : List Char}

/-- The places that are counted, when `skip` more characters are passed over. -/
theorem exists_apart_of_countFrom (hmarker : marker ≠ []) : ∀ (text : List Char) (skip : Nat),
    ∃ places, Apart marker text places ∧ (∀ i ∈ places, skip ≤ i)
      ∧ places.length = countFrom marker skip text
  | [], _ => ⟨[], apart_nil, by simp, by simp [countFrom]⟩
  | c :: cs, skip + 1 => by
    obtain ⟨places, hapart, hskip, hlength⟩ := exists_apart_of_countFrom hmarker cs skip
    exact ⟨places.map (· + 1), apart_map_succ.mpr hapart, by simpa using hskip,
      by simpa [countFrom] using hlength⟩
  | c :: cs, 0 => by
    by_cases hstarts : marker.isPrefixOf (c :: cs) = true
    · obtain ⟨places, hapart, hskip, hlength⟩ :=
        exists_apart_of_countFrom hmarker cs (marker.length - 1)
      have hbehind : ∀ i ∈ places, marker.length ≤ i + 1 := by
        intro i hi
        have := hskip i hi
        omega
      have hfirst := standsAt_zero.mpr (List.isPrefixOf_iff_prefix.mp hstarts)
      refine ⟨0 :: places.map (· + 1), apart_cons.mpr ⟨hfirst, ?_, apart_map_succ.mpr hapart⟩,
        by simp, by simp [countFrom, hstarts, hlength]⟩
      simpa using hbehind
    · obtain ⟨places, hapart, -, hlength⟩ := exists_apart_of_countFrom hmarker cs 0
      exact ⟨places.map (· + 1), apart_map_succ.mpr hapart, by simp,
        by simp [countFrom, hstarts, hlength]⟩

/-- There are no more places than are counted, since the place counted first ends before any other
that could be taken in its stead. -/
theorem Apart.length_le_countFrom (hmarker : marker ≠ []) : ∀ {text : List Char} {skip : Nat}
    {places : List Nat}, Apart marker text places → (∀ i ∈ places, skip ≤ i) →
      places.length ≤ countFrom marker skip text
  | [], _, [], _, _ => Nat.zero_le _
  | [], _, i :: _, h, _ => absurd (h.stands i (by simp)).eq_nil hmarker
  | c :: cs, skip + 1, places, h, hskip => by
    obtain ⟨later, rfl, hlater⟩ := h.exists_map_succ fun i hi => Nat.zero_lt_of_lt (hskip i hi)
    have : later.length ≤ countFrom marker skip cs :=
      hlater.length_le_countFrom hmarker (by simpa using hskip)
    simpa [countFrom] using this
  | c :: cs, 0, places, h, _ => by
    by_cases hstarts : marker.isPrefixOf (c :: cs) = true
    · cases places with
      | nil => exact Nat.zero_le _
      | cons i places =>
        obtain ⟨-, hbehind, hrest⟩ := apart_cons.mp h
        obtain ⟨later, rfl, hlater⟩ := hrest.exists_map_succ fun j hj =>
          Nat.zero_lt_of_lt (hbehind j hj).1
        have hskip : ∀ j ∈ later, marker.length - 1 ≤ j := by
          intro j hj
          have := (hbehind (j + 1) (List.mem_map_of_mem hj)).2
          omega
        have := hlater.length_le_countFrom hmarker hskip
        simpa [countFrom, hstarts] using this
    · have hpos : ∀ i ∈ places, 0 < i := by
        intro i hi
        refine Nat.pos_of_ne_zero ?_
        rintro rfl
        exact hstarts (List.isPrefixOf_iff_prefix.mpr (standsAt_zero.mp (h.stands 0 hi)))
      obtain ⟨later, rfl, hlater⟩ := h.exists_map_succ hpos
      have : later.length ≤ countFrom marker 0 cs :=
        hlater.length_le_countFrom hmarker (by simp)
      simpa [countFrom, hstarts] using this

end Counting

/-- The empty marker stands at every index. -/
theorem isGreatest_length_succ (text : List Char) :
    IsGreatest {n | ∃ places, Apart [] text places ∧ places.length = n} (text.length + 1) := by
  constructor
  · refine ⟨List.range (text.length + 1), ⟨?_, ?_⟩, List.length_range⟩
    · intro i hi
      exact ⟨Nat.le_of_lt_succ (List.mem_range.mp hi), List.nil_prefix⟩
    · refine List.pairwise_lt_range.imp ?_
      intro i j hij
      exact ⟨hij, Nat.le_of_lt hij⟩
  · rintro _ ⟨places, hplaces, rfl⟩
    have hnodup : places.Nodup := hplaces.apart.imp fun h => Nat.ne_of_lt h.1
    have hrange : places ⊆ List.range (text.length + 1) := by
      intro i hi
      exact List.mem_range.mpr (Nat.lt_succ_of_le (hplaces.stands i hi).le_length)
    simpa using (List.subperm_of_subset hnodup hrange).length_le

/-- **The count of a marker is the greatest number of its places that do not overlap.** -/
theorem isGreatest_occurrences (marker text : List Char) :
    IsGreatest {n | ∃ places, Apart marker text places ∧ places.length = n}
      (occurrences marker text) := by
  by_cases hmarker : marker = []
  · subst hmarker
    exact isGreatest_length_succ text
  · have hcount : occurrences marker text = countFrom marker 0 text := by
      simp [occurrences, hmarker]
    rw [hcount]
    constructor
    · obtain ⟨places, hapart, -, hlength⟩ := exists_apart_of_countFrom hmarker text 0
      exact ⟨places, hapart, hlength⟩
    · rintro _ ⟨places, hplaces, rfl⟩
      exact hplaces.length_le_countFrom hmarker (by simp)

/-! ## 3. Splitting and putting together -/

/-- Where the marker stands anywhere, the text is cut. -/
theorem StandsAt.isSome_cutAt {marker : List Char} : ∀ {text : List Char} {i : Nat},
    StandsAt marker text i → (cutAt marker text).isSome = true
  | [], _, h => by simp [cutAt, h.eq_nil]
  | c :: cs, i, h => by
    rw [cutAt]
    split
    · rfl
    · rename_i hstarts
      cases i with
      | zero => exact absurd (List.isPrefixOf_iff_prefix.mpr (standsAt_zero.mp h)) hstarts
      | succ i =>
        rw [Option.isSome_map]
        exact (standsAt_succ.mp h).isSome_cutAt

theorem isSome_cutAt_of_occurrences {marker text : List Char} (h : occurrences marker text = 1) :
    (cutAt marker text).isSome = true := by
  obtain ⟨places, hplaces, hlength⟩ := (isGreatest_occurrences marker text).1
  rw [h, List.length_eq_one_iff] at hlength
  obtain ⟨i, rfl⟩ := hlength
  exact (hplaces.stands i (by simp)).isSome_cutAt

/-- What splitting gives: around the one occurrence, the text before it and the text after it. -/
theorem splitMarked_of_occurrences (e : Encoding) {marker marked : List Char}
    (h : occurrences marker marked = 1) :
    ∃ a b, marked = a ++ marker ++ b
      ∧ splitMarked e marker marked = .ok (a ++ b, toOffset e (a ++ b) a.length) := by
  obtain ⟨⟨a, b⟩, hcut⟩ := Option.isSome_iff_exists.mp (isSome_cutAt_of_occurrences h)
  exact ⟨a, b, eq_append_of_cutAt hcut, by simp [splitMarked, hcut, h]⟩

/-- Otherwise it fails and says how often the marker occurs. -/
theorem splitMarked_of_ne (e : Encoding) {marker marked : List Char}
    (h : occurrences marker marked ≠ 1) :
    splitMarked e marker marked = .error ⟨marker, occurrences marker marked⟩ := by
  cases hcut : cutAt marker marked <;> simp [splitMarked, hcut, h]

/-- **Splitting fails just if the marker does not occur exactly once, and otherwise it is undone**
by putting the marker in again at the index that the offset stands for. -/
theorem splitMarked_restores (e : Encoding) (marker marked : List Char) :
    (∀ error, splitMarked e marker marked = .error error
        ↔ occurrences marker marked ≠ 1 ∧ error = ⟨marker, occurrences marker marked⟩)
      ∧ (∀ text offset, splitMarked e marker marked = .ok (text, offset) →
          let k := toIndex e text offset
          text.take k ++ marker ++ text.drop k = marked)
      ∧ IsGreatest {n | ∃ places, Apart marker marked places ∧ places.length = n}
          (occurrences marker marked) := by
  refine ⟨?_, ?_, isGreatest_occurrences marker marked⟩
  · intro error
    by_cases hone : occurrences marker marked = 1
    · obtain ⟨a, b, -, hsplit⟩ := splitMarked_of_occurrences e hone
      simp [hsplit, hone]
    · simp [splitMarked_of_ne e hone, hone, eq_comm]
  · intro text offset hsplit k
    by_cases hone : occurrences marker marked = 1
    · obtain ⟨a, b, hmarked, hok⟩ := splitMarked_of_occurrences e hone
      obtain ⟨rfl, rfl⟩ := Prod.mk.inj (Except.ok.inj (hok.symm.trans hsplit))
      have hindex : k = a.length := toIndex_toOffset e (by simp)
      rw [hindex, List.take_left, List.drop_left, hmarked]
    · rw [splitMarked_of_ne e hone] at hsplit
      cases hsplit

/-- The marker of two characters outside the Basic Multilingual Plane overlaps itself in the text,
where it is found once, behind another such character. -/
theorem splitMarked_restores_overlapping :
    let text := ['𝄞', '😀']
    let k := toIndex .utf16 text 2
    splitMarked .utf16 ['😀', '😀'] ['𝄞', '😀', '😀', '😀'] = .ok (text, 2)
      ∧ text.take k ++ ['😀', '😀'] ++ text.drop k = ['𝄞', '😀', '😀', '😀'] := by
  intro text k
  have hsplit : splitMarked .utf16 ['😀', '😀'] ['𝄞', '😀', '😀', '😀'] = .ok (text, 2) := by decide
  obtain ⟨-, hrestores, -⟩ := splitMarked_restores .utf16 ['😀', '😀'] ['𝄞', '😀', '😀', '😀']
  exact ⟨hsplit, hrestores text 2 hsplit⟩

end SchemaAssist.Text
