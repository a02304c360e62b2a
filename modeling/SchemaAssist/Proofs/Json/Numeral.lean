/-
# Numbers are written as numerals

The grammar of JSON numbers, part by part: digits without a leading zero, a fraction, an exponent.
The reader of words takes every numeral for a number (`IsNumeral.read`).  The writer lays the digits
of a double out in three ways, and whichever the style chooses, what comes out is a numeral:

* `isNumeral_integerText`: the text of every integer;
* `isNumeral_text`: the text of every finite double, in every style.

What has to be seen for doubles is that a leading zero stands alone.  The digits of a double other
than zero are those of a positive number (`shortestDecimal_pos`), because all decimals that read
back as the double are.
-/
import SchemaAssist.Proofs.Json.Writing

namespace SchemaAssist.Json

/-! ## 1. The grammar -/

/-- One digit or more. -/
structure IsDigits (ds : List Char) : Prop where
  ne_nil : ds ≠ []
  isDigit : ∀ c ∈ ds, c.isDigit = true

/-- The digits of an integer: a zero does not stand in front of other digits. -/
structure IsWhole (ds : List Char) : Prop extends IsDigits ds where
  /-- Only zero starts with the digit zero. -/
  leading : ds.head? = some '0' → ds = ['0']

/-- A point and digits, or nothing. -/
inductive IsFraction : List Char → Prop where
  | none : IsFraction []
  | point {ds : List Char} : IsDigits ds → IsFraction ('.' :: ds)

/-- A letter, a sign that may be left out, and digits, or nothing. -/
inductive IsExponent : List Char → Prop where
  | none : IsExponent []
  | power {e : Char} {sign ds : List Char} : e = 'e' ∨ e = 'E' →
      sign = [] ∨ sign = ['+'] ∨ sign = ['-'] → IsDigits ds → IsExponent (e :: (sign ++ ds))

/-- A numeral without its sign. -/
inductive IsMagnitude : List Char → Prop where
  | intro {whole fraction exponent : List Char} : IsWhole whole → IsFraction fraction →
      IsExponent exponent → IsMagnitude (whole ++ (fraction ++ exponent))

/-- A numeral. -/
inductive IsNumeral : List Char → Prop where
  | positive {text : List Char} : IsMagnitude text → IsNumeral text
  | negative {text : List Char} : IsMagnitude text → IsNumeral ('-' :: text)

theorem IsDigits.append {a b : List Char} (ha : IsDigits a) (hb : ∀ c ∈ b, c.isDigit = true) :
    IsDigits (a ++ b) :=
  ⟨List.append_ne_nil_of_left_ne_nil ha.ne_nil b, List.forall_mem_append.mpr ⟨ha.isDigit, hb⟩⟩

/-- A run of zeros. -/
theorem isDigit_zeros (n : Nat) : ∀ c ∈ List.replicate n '0', c.isDigit = true := by
  intro c hc
  rw [List.eq_of_mem_replicate hc]
  decide

theorem IsDigits.zeros_append {ds : List Char} (h : IsDigits ds) (n : Nat) :
    IsDigits (List.replicate n '0' ++ ds) :=
  ⟨List.append_ne_nil_of_right_ne_nil _ h.ne_nil,
    List.forall_mem_append.mpr ⟨isDigit_zeros n, h.isDigit⟩⟩

/-- A single digit is an integer, zero or not. -/
theorem isWhole_singleton {c : Char} (h : c.isDigit = true) : IsWhole [c] where
  ne_nil := List.cons_ne_nil c []
  isDigit := List.forall_mem_singleton.mpr h
  leading hzero := by
    cases hzero
    rfl

/-! ## 2. Numerals are read -/

/-- The text goes on with something else than a digit. -/
def EndsDigits (rest : List Char) : Prop :=
  ∀ c ∈ rest.head?, c.isDigit = false

/-- Digits are split off where they end. -/
theorem splitDigits_append {ds rest : List Char} (hds : ∀ c ∈ ds, c.isDigit = true)
    (hrest : EndsDigits rest) : splitDigits (ds ++ rest) = (ds, rest) := by
  rw [splitDigits, List.takeWhile_append_of_pos hds, List.dropWhile_append_of_pos hds]
  cases rest with
  | nil => simp
  | cons c cs =>
    have hc : c.isDigit = false := hrest c rfl
    simp [hc]

theorem IsExponent.endsDigits {text : List Char} (h : IsExponent text) : EndsDigits text := by
  cases h with
  | none => nofun
  | power he _ _ =>
    rintro c ⟨⟩
    rcases he with rfl | rfl <;> decide

theorem IsFraction.endsDigits {fraction exponent : List Char} (h : IsFraction fraction)
    (hexponent : IsExponent exponent) : EndsDigits (fraction ++ exponent) := by
  cases h with
  | none => exact hexponent.endsDigits
  | point _ =>
    rintro c ⟨⟩
    decide

/-- A text that starts with a digit starts with no sign. -/
theorem IsDigits.ne_cons {ds rest : List Char} {sign : Char} (hsign : sign.isDigit = false)
    (h : IsDigits ds) (suffix : List Char) : ds ++ suffix ≠ sign :: rest := by
  intro heq
  cases ds with
  | nil => exact h.ne_nil rfl
  | cons c cs =>
    obtain ⟨rfl, -⟩ := List.cons.inj heq
    rw [h.isDigit _ List.mem_cons_self] at hsign
    cases hsign

theorem IsExponent.read {text : List Char} (h : IsExponent text) :
    (readExponent? text).isSome = true := by
  cases h with
  | none => rfl
  | @power e sign ds he hsign hds =>
    have hall : (ds.isEmpty || !ds.all Char.isDigit) = false := by
      simpa [hds.ne_nil] using hds.isDigit
    rcases hsign with rfl | rfl | rfl
    · -- Without a sign the digits are taken as they are.
      have hminus : ∀ rest, ds ≠ '-' :: rest := fun rest => by
        simpa using hds.ne_cons (by decide) []
      have hplus : ∀ rest, ds ≠ '+' :: rest := fun rest => by
        simpa using hds.ne_cons (by decide) []
      simp only [List.nil_append, readExponent?, if_pos he, hall, Bool.false_eq_true, if_false,
        Option.isSome_some]
    · simp [readExponent?, if_pos he, hall]
    · simp [readExponent?, if_pos he, hall]

/-- The fraction is read and the exponent left. -/
theorem IsFraction.read {fraction exponent : List Char} (h : IsFraction fraction)
    (hexponent : IsExponent exponent) :
    ∃ places, readFraction? (fraction ++ exponent) = some (places, exponent) := by
  cases h with
  | none =>
    refine ⟨Option.none, ?_⟩
    cases hexponent with
    | none => rfl
    | power he _ _ => rcases he with rfl | rfl <;> rfl
  | @point ds hds =>
    refine ⟨some ds, ?_⟩
    rw [List.cons_append, readFraction?, splitDigits_append hds.isDigit hexponent.endsDigits]
    simp [hds.ne_nil]

theorem IsMagnitude.read {text : List Char} (h : IsMagnitude text) (negative : Bool) :
    (readMagnitude? negative text).isSome = true := by
  obtain @⟨whole, fraction, exponent, hwhole, hfraction, hexponent⟩ := h
  obtain ⟨places, hplaces⟩ := hfraction.read hexponent
  obtain ⟨power, hpower⟩ := Option.isSome_iff_exists.mp hexponent.read
  have hzero : (whole.isEmpty || (whole.head? == some '0' && decide (1 < whole.length))) = false := by
    rw [Bool.or_eq_false_iff, List.isEmpty_eq_false_iff]
    refine ⟨hwhole.ne_nil, ?_⟩
    by_cases hhead : whole.head? = some '0'
    · rw [hwhole.leading hhead]
      rfl
    · simp [hhead]
  rw [readMagnitude?, splitDigits_append hwhole.isDigit (hfraction.endsDigits hexponent)]
  simp only [hzero, Bool.false_eq_true, if_false, hplaces, hpower, Option.bind_eq_bind,
    Option.bind_some, Option.pure_def]
  split <;> rfl

theorem IsMagnitude.ne_cons {text : List Char} (h : IsMagnitude text) (rest : List Char) :
    text ≠ '-' :: rest := by
  cases h with
  | intro hwhole _ _ => exact hwhole.ne_cons (by decide) _

/-- **A numeral is read as a number.** -/
theorem IsNumeral.read {text : List Char} (h : IsNumeral text) :
    (readNumber? text).isSome = true := by
  cases h with
  | negative h => exact h.read true
  | positive h =>
    unfold readNumber?
    split
    · -- A magnitude starts with a digit, so it is not taken for a negative number.
      rename_i rest
      exact absurd rfl (h.ne_cons rest)
    · exact h.read false

/-- A numeral is a word. -/
theorem IsNumeral.readWord {text : List Char} (h : IsNumeral text) :
    (readWord? text).isSome = true := by
  unfold readWord?
  repeat' split
  all_goals first
    | rfl
    | exact h.read

/-! ## 3. Integers -/

theorem isWhole_toDigits (n : Nat) : IsWhole (Nat.toDigits 10 n) where
  ne_nil := Nat.toDigits_ne_nil
  isDigit _ hc := Nat.isDigit_of_mem_toDigits (by decide) (by decide) hc
  leading hzero := by
    rcases Nat.eq_zero_or_pos n with rfl | hn
    · rfl
    · exact absurd hzero (head_toDigits hn)

theorem IsWhole.magnitude {ds : List Char} (h : IsWhole ds) : IsMagnitude ds := by
  simpa using IsMagnitude.intro h .none .none

/-- **An integer is written as a numeral.** -/
theorem isNumeral_integerText (n : Int) : IsNumeral (integerText n) := by
  unfold integerText
  split
  · exact .negative (isWhole_toDigits _).magnitude
  · exact .positive (isWhole_toDigits _).magnitude

/-! ## 4. The digits of a double -/

/-- A neighbour above a positive bound is positive. -/
theorem neighbourWithin_pos {p q low high : Nat} {closed : Bool} {d : Nat} (hlow : 0 < low)
    (h : neighbourWithin p q low high closed = some d) : 0 < d := by
  unfold neighbourWithin at h
  -- Zero lies below the bound, so it is never the neighbour below.
  have hzero : ∀ x, (if closed then decide (low ≤ x * q) && decide (x * q ≤ high)
      else decide (low < x * q) && decide (x * q < high)) = true → 0 < x := by
    rintro (_ | x) hx
    · rw [Nat.zero_mul] at hx
      split at hx <;> simp at hx
      omega
    · exact Nat.succ_pos x
  simp only at h
  split at h
  · rename_i hbelow habove
    have := hzero _ hbelow
    split at h
    · cases h
      exact this
    · split at h <;> cases h <;> omega
  · rename_i hbelow habove
    cases h
    exact hzero _ hbelow
  · cases h
    exact Nat.succ_pos _
  · cases h

theorem dropTrailingZeros_pos (digits : Nat) (exponent : Int) (h : 0 < digits) :
    0 < (dropTrailingZeros digits exponent).1 := by
  fun_induction dropTrailingZeros digits exponent with
  | case1 digits exponent hzero ih => exact ih (by omega)
  | case2 digits exponent hzero => exact h

theorem scale_pos {base : Nat} (hbase : 0 < base) (k : Int) {p : Nat} (q : Nat) (hp : 0 < p) :
    0 < (scale base k p q).1 :=
  Nat.mul_pos hp (Nat.pow_pos hbase)

theorem decimalOfLength_pos {m : Nat} {e : Int} {count d : Nat} {k : Int} (hm : 0 < m)
    (h : decimalOfLength m e count = some (d, k)) : 0 < d := by
  unfold decimalOfLength at h
  simp only [Option.map_eq_some_iff] at h
  obtain ⟨digits, hdigits, heq⟩ := h
  cases heq
  refine neighbourWithin_pos (Nat.mul_pos ?_ ?_) hdigits
  · split <;> omega
  · exact scale_pos (by decide) _ _ (scale_pos (by decide) _ _ Nat.one_pos)

/-- **A double other than zero has positive digits.** -/
theorem shortestDecimal_pos {m : Nat} (e : Int) (hm : 0 < m) : 0 < (shortestDecimal m e).1 := by
  rw [shortestDecimal, if_neg (Nat.ne_of_gt hm)]
  split
  · rename_i d k hfound
    obtain ⟨count, -, hcount⟩ := List.exists_of_findSome?_eq_some hfound
    exact dropTrailingZeros_pos d k (decimalOfLength_pos hm hcount)
  · exact hm

/-! ## 5. The text of a double -/

/-- Digits with their point, in positional notation; the digit zero is the one before the point. -/
theorem isMagnitude_positionalText {ds : List Char} {point : Int} (hds : IsWhole ds)
    (hzero : ds = ['0'] → point ≤ 1) : IsMagnitude (positionalText ds point) := by
  unfold positionalText
  split
  · have hplaces := hds.toIsDigits.zeros_append (-point).toNat
    simpa using IsMagnitude.intro (isWhole_singleton (by decide)) (.point hplaces) .none
  split
  · rename_i hpoint hlength
    -- Zeros stand behind the digits, and a leading zero has none behind it.
    have hwhole : IsWhole (ds ++ List.replicate (point.toNat - ds.length) '0') := by
      refine ⟨hds.toIsDigits.append (isDigit_zeros _), ?_⟩
      intro hhead
      have hone : ds = ['0'] := hds.leading <| by
        cases ds with
        | nil => exact absurd rfl hds.ne_nil
        | cons c cs => exact hhead
      have hnone : point.toNat - ds.length = 0 := by
        have hpoint := hzero hone
        have hlength : ds.length = 1 := by rw [hone]; rfl
        omega
      rw [hnone, hone]
      rfl
    have hplaces : IsDigits ['0'] := (isWhole_singleton (by decide)).toIsDigits
    simpa using IsMagnitude.intro hwhole (.point hplaces) .none
  · rename_i hpoint hlength
    have hsplit : 0 < point.toNat ∧ point.toNat < ds.length := by omega
    have hwhole : IsWhole (ds.take point.toNat) := by
      refine ⟨⟨?_, fun c hc => hds.isDigit c (List.mem_of_mem_take hc)⟩, ?_⟩
      · simpa [hds.ne_nil] using Nat.ne_of_gt hsplit.1
      · rw [List.head?_take, if_neg (Nat.ne_of_gt hsplit.1)]
        intro hhead
        have hone := hds.leading hhead
        rw [hone] at hsplit
        simp at hsplit
        omega
    have hplaces : IsDigits (ds.drop point.toNat) := by
      refine ⟨?_, fun c hc => hds.isDigit c (List.mem_of_mem_drop hc)⟩
      simpa using hsplit.2
    simpa using IsMagnitude.intro hwhole (.point hplaces) .none

theorem isExponent_exponentText (width : Nat) (k : Int) :
    IsExponent ('e' :: exponentText width k) := by
  have hpadded := (isWhole_toDigits k.natAbs).toIsDigits.zeros_append
    (width - (Nat.toDigits 10 k.natAbs).length)
  unfold exponentText
  split
  · exact .power (.inl rfl) (.inr (.inr rfl)) hpadded
  · exact .power (.inl rfl) (.inr (.inl rfl)) hpadded

/-- Digits with a point behind the first of them, and an exponent. -/
theorem isMagnitude_exponentialText (width : Nat) {ds : List Char} (k : Int) (hds : IsDigits ds) :
    IsMagnitude (exponentialText width ds k) := by
  cases ds with
  | nil => exact absurd rfl hds.ne_nil
  | cons c cs =>
    have hwhole := isWhole_singleton (hds.isDigit c List.mem_cons_self)
    have hfraction : IsFraction (if cs.isEmpty then [] else '.' :: cs) := by
      cases cs with
      | nil => exact .none
      | cons d ds => exact .point ⟨List.cons_ne_nil d ds, fun x hx =>
          hds.isDigit x (List.mem_cons_of_mem c hx)⟩
    simpa [exponentialText] using
      IsMagnitude.intro hwhole hfraction (isExponent_exponentText width k)

/-- **A finite double is written as a numeral**, in every style. -/
theorem isNumeral_text (style : NumberStyle) {d : Double} (h : d.isFinite = true) :
    IsNumeral (d.text style) := by
  cases d with
  | nan | infinity => cases h
  | finite negative m e =>
    have hmagnitude : IsMagnitude (
        let ds := Nat.toDigits 10 (shortestDecimal m e).1
        let lead : Int := ds.length + (shortestDecimal m e).2 - 1
        if style.leastPositional ≤ lead ∧ lead < style.firstExponential then
          positionalText ds (lead + 1)
        else exponentialText style.exponentWidth ds lead) := by
      have hds := isWhole_toDigits (shortestDecimal m e).1
      have hzero : Nat.toDigits 10 (shortestDecimal m e).1 = ['0'] →
          (shortestDecimal m e).2 ≤ 0 := by
        intro hzero
        rcases Nat.eq_zero_or_pos m with rfl | hm
        · simp [shortestDecimal]
        · have := head_toDigits (shortestDecimal_pos e hm)
          rw [hzero] at this
          exact absurd rfl this
      dsimp only
      split
      · refine isMagnitude_positionalText hds fun hone => ?_
        have := hzero hone
        rw [hone]
        simp
        omega
      · exact isMagnitude_exponentialText _ _ hds.toIsDigits
    rw [Double.text]
    cases negative with
    | false => exact .positive hmagnitude
    | true => exact .negative hmagnitude

end SchemaAssist.Json
