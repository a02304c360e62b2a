/-
# UTF-8 is read back

The bytes of a text stand for that text (`decodeUtf8_utf8Bytes`).  A character of several bytes is
read byte by byte: the first byte says how many follow and in which range the second one lies
(`first_two`, `first_three`, `first_four`), and every further byte adds six bits.  Those ranges are
where it matters that a character is no half of a surrogate pair and has its shortest form.
-/
import SchemaAssist.Text.Utf8

namespace SchemaAssist.Text

/-! ## 1. Bytes -/

theorem utf8Bytes_ascii {c : Char} (h : c.toNat < 0x80) : utf8Bytes c = [c.toNat] := by
  rw [utf8Bytes, if_pos h]

theorem utf8Bytes_lt {c : Char} : ∀ b ∈ utf8Bytes c, b < 0x100 := by
  have hvalid : c.toNat < 0xd800 ∨ 0xdfff < c.toNat ∧ c.toNat < 0x110000 := c.valid
  intro b hb
  simp only [utf8Bytes] at hb
  split at hb
  · simp only [List.mem_cons, List.not_mem_nil, or_false] at hb
    omega
  split at hb
  · simp only [List.mem_cons, List.not_mem_nil, or_false] at hb
    omega
  split at hb <;> simp only [List.mem_cons, List.not_mem_nil, or_false] at hb <;> omega

/-! ## 2. The first byte -/

namespace Utf8State

/-- After the first of two bytes. -/
theorem first_two {n : Nat} (hlow : 0x80 ≤ n) (hhigh : n < 0x800) :
    first (0xc0 + n / 0x40) = ([], .partway 1 (n / 0x40) 0x80 0xbf) := by
  rw [first, if_neg (by omega), if_pos (by omega), Nat.add_sub_cancel_left]

/-- After the first of three bytes. -/
theorem first_three {n : Nat} (hlow : 0x800 ≤ n) (hhigh : n < 0x10000)
    (hvalid : n < 0xd800 ∨ 0xdfff < n) : ∃ low high,
    first (0xe0 + n / 0x1000) = ([], .partway 2 (n / 0x1000) low high)
      ∧ low ≤ 0x80 + n / 0x40 % 0x40 ∧ 0x80 + n / 0x40 % 0x40 ≤ high := by
  rw [first, if_neg (by omega), if_neg (by omega)]
  by_cases hzero : n / 0x1000 = 0
  · rw [hzero, if_pos rfl]
    exact ⟨_, _, rfl, by omega, by omega⟩
  rw [if_neg (by omega)]
  by_cases hsurrogate : n / 0x1000 = 0xd
  · rw [hsurrogate, if_pos rfl]
    exact ⟨_, _, rfl, by omega, by omega⟩
  rw [if_neg (by omega), if_pos (by omega), Nat.add_sub_cancel_left]
  exact ⟨_, _, rfl, by omega, by omega⟩

/-- After the first of four bytes. -/
theorem first_four {n : Nat} (hlow : 0x10000 ≤ n) (hhigh : n < 0x110000) : ∃ low high,
    first (0xf0 + n / 0x40000) = ([], .partway 3 (n / 0x40000) low high)
      ∧ low ≤ 0x80 + n / 0x1000 % 0x40 ∧ 0x80 + n / 0x1000 % 0x40 ≤ high := by
  rw [first, if_neg (by omega), if_neg (by omega), if_neg (by omega), if_neg (by omega),
    if_neg (by omega)]
  by_cases hzero : n / 0x40000 = 0
  · rw [hzero, if_pos rfl]
    exact ⟨_, _, rfl, by omega, by omega⟩
  rw [if_neg (by omega)]
  by_cases hlast : n / 0x40000 = 4
  · rw [hlast, if_neg (by omega), if_pos rfl]
    exact ⟨_, _, rfl, by omega, by omega⟩
  rw [if_pos (by omega), Nat.add_sub_cancel_left]
  exact ⟨_, _, rfl, by omega, by omega⟩

end Utf8State

/-! ## 3. A character -/

section Bytes

variable {owed bits low high b : Nat}

theorem decodeFrom_start {s : Utf8State} (h : Utf8State.first b = ([], s)) (bs : List Nat) :
    decodeFrom .start (b :: bs) = decodeFrom s bs := by
  simp only [decodeFrom, Utf8State.step, h, List.nil_append]

/-- A byte that is not the last one adds six bits. -/
theorem decodeFrom_more (h : low ≤ b ∧ b ≤ high) (bs : List Nat) :
    decodeFrom (.partway (owed + 2) bits low high) (b :: bs)
      = decodeFrom (.partway (owed + 1) (bits * 0x40 + (b - 0x80)) 0x80 0xbf) bs := by
  simp only [decodeFrom, Utf8State.step, if_pos h]
  rw [if_neg (by omega)]
  rfl

/-- The last byte completes the character. -/
theorem decodeFrom_last (h : low ≤ b ∧ b ≤ high) (bs : List Nat) :
    decodeFrom (.partway 1 bits low high) (b :: bs)
      = Char.ofNat (bits * 0x40 + (b - 0x80)) :: decodeFrom .start bs := by
  simp only [decodeFrom, Utf8State.step, if_pos h]
  rfl

end Bytes

/-- **The bytes of a character are read as that character**, whatever follows. -/
theorem decodeFrom_utf8Bytes (c : Char) (rest : List Nat) :
    decodeFrom .start (utf8Bytes c ++ rest) = c :: decodeFrom .start rest := by
  have hvalid : c.toNat < 0xd800 ∨ 0xdfff < c.toNat ∧ c.toNat < 0x110000 := c.valid
  have hchar : ∀ n, n = c.toNat → Char.ofNat n = c := by
    rintro _ rfl
    exact Char.ofNat_toNat c
  simp only [utf8Bytes]
  split
  · rename_i h
    simp only [List.cons_append, List.nil_append, decodeFrom, Utf8State.step, Utf8State.first,
      if_pos h, Char.ofNat_toNat]
  split
  · rename_i h1 h2
    simp only [List.cons_append, List.nil_append]
    rw [decodeFrom_start (Utf8State.first_two (by omega) h2), decodeFrom_last (by omega),
      hchar _ (by omega)]
  split
  · rename_i h1 h2 h3
    obtain ⟨low, high, hfirst, hrange⟩ :=
      Utf8State.first_three (Nat.le_of_not_lt h2) h3 (hvalid.imp_right And.left)
    simp only [List.cons_append, List.nil_append]
    rw [decodeFrom_start hfirst, decodeFrom_more hrange, decodeFrom_last (by omega),
      hchar _ (by omega)]
  · rename_i h1 h2 h3
    obtain ⟨low, high, hfirst, hrange⟩ :=
      Utf8State.first_four (Nat.le_of_not_lt h3) (n := c.toNat) (by omega)
    simp only [List.cons_append, List.nil_append]
    rw [decodeFrom_start hfirst, decodeFrom_more hrange, decodeFrom_more (by omega),
      decodeFrom_last (by omega), hchar _ (by omega)]

/-- **The bytes of a text are read as that text.** -/
theorem decodeUtf8_utf8Bytes (text : List Char) : decodeUtf8 (text.flatMap utf8Bytes) = text := by
  rw [decodeUtf8]
  induction text with
  | nil => rfl
  | cons c text ih => rw [List.flatMap_cons, decodeFrom_utf8Bytes, ih]

end SchemaAssist.Text
