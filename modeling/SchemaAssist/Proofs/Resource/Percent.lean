/-
# Escapes are read back

A text that is escaped for a URI stands for the text itself (`unquote_quote`), whatever characters
are kept as they are, the percent sign apart.  Decoding takes ASCII characters in runs, and a
character beyond ASCII ends a run, so a run is compared with the text that it was written for
(`Spells`): its bytes are those of that text.

What is escaped holds few characters (`IsPlain`), none of which ends a part of a URI.
-/
import SchemaAssist.Proofs.Text.Utf8
import SchemaAssist.Resource.Percent
import SchemaAssist.Text.Word

namespace SchemaAssist.Resource

open SchemaAssist.Json SchemaAssist.Text

/-! ## 1. A byte -/

/-- The two digits of a byte. -/
theorem exists_byteEscape {n : Nat} (h : n < 0x100) :
    ∃ a b, byteEscape n = ['%', a, b] ∧ byte? a b = some n
      ∧ a.isAlphanum = true ∧ b.isAlphanum = true := by
  have hdigit : ∀ d < 16, hexValue? (Nat.digitChar d).toUpper = some d
      ∧ (Nat.digitChar d).toUpper.isAlphanum = true := by
    decide
  obtain ⟨hhigh, ahigh⟩ := hdigit (n / 16 % 16) (by omega)
  obtain ⟨hlow, alow⟩ := hdigit (n % 16) (by omega)
  refine ⟨_, _, rfl, ?_, ahigh, alow⟩
  rw [byte?, hhigh, hlow]
  have hsum : n / 16 % 16 * 16 + n % 16 = n := by omega
  simp only [hsum]

theorem runBytes_byteEscape {n : Nat} (h : n < 0x100) (rest : List Char) :
    runBytes (byteEscape n ++ rest) = n :: runBytes rest := by
  obtain ⟨a, b, hescape, hbyte, -, -⟩ := exists_byteEscape h
  rw [hescape]
  simp only [List.cons_append, List.nil_append, runBytes, hbyte]

theorem runBytes_escapes (rest : List Char) : ∀ {bytes : List Nat}, (∀ b ∈ bytes, b < 0x100) →
    runBytes (bytes.flatMap byteEscape ++ rest) = bytes ++ runBytes rest
  | [], _ => rfl
  | b :: bytes, h => by
    have ih := runBytes_escapes rest fun x hx => h x (List.mem_cons_of_mem b hx)
    rw [List.flatMap_cons, List.append_assoc, runBytes_byteEscape (h b List.mem_cons_self), ih,
      List.cons_append]

theorem runBytes_cons {c : Char} (h : c ≠ '%') (rest : List Char) :
    runBytes (c :: rest) = c.toNat :: runBytes rest := by
  rw [runBytes]
  intro a b cs hc
  exact absurd hc h

/-! ## 2. What is escaped -/

/-- The character stands for itself in every part of a URI, or starts an escape. -/
def IsPlain (c : Char) : Prop :=
  isUnreserved c = true ∨ c = '%'

theorem IsPlain.isAscii {c : Char} (h : IsPlain c) : isAscii c = true := by
  rcases h with h | rfl
  · simp only [isUnreserved, Bool.or_eq_true, beq_iff_eq] at h
    rcases h with (((h | rfl) | rfl) | rfl) | rfl
    · have := (bounds_of_isAlphanum h).2
      exact decide_eq_true (by omega)
    all_goals decide
  · decide

/-- What ends a part of a URI, starts one or is dropped from it is not plain. -/
theorem IsPlain.not_mem {c : Char} (h : IsPlain c) :
    c ∉ ['/', '?', '#', ':', '[', ']', '@', '\t', '\r', '\n'] := by
  intro hc
  simp only [List.mem_cons, List.not_mem_nil, or_false] at hc
  rcases hc with rfl | rfl | rfl | rfl | rfl | rfl | rfl | rfl | rfl | rfl <;>
    exact absurd h (by simp [IsPlain, isUnreserved])

theorem isPlain_byteEscape {n : Nat} (h : n < 0x100) : ∀ c ∈ byteEscape n, IsPlain c := by
  obtain ⟨a, b, hescape, -, ha, hb⟩ := exists_byteEscape h
  rw [hescape]
  simp [IsPlain, isUnreserved, ha, hb]

section Quoting

variable {keep : Char → Bool}

theorem quote_cons (c : Char) (text : List Char) :
    quote keep (c :: text) = quoteChar keep c ++ quote keep text :=
  List.flatMap_cons

theorem quote_append (a b : List Char) : quote keep (a ++ b) = quote keep a ++ quote keep b :=
  List.flatMap_append

theorem quoteChar_of_keep {c : Char} (h : (isUnreserved c || keep c) = true) :
    quoteChar keep c = [c] := by
  rw [quoteChar, if_pos h]

theorem quoteChar_of_escaped {c : Char} (h : ¬ (isUnreserved c || keep c) = true) :
    quoteChar keep c = (utf8Bytes c).flatMap byteEscape := by
  rw [quoteChar, if_neg h]

theorem isPlain_or_keep {text : List Char} : ∀ c ∈ quote keep text, IsPlain c ∨ keep c = true := by
  intro c hc
  obtain ⟨x, -, hx⟩ := List.mem_flatMap.mp hc
  by_cases h : (isUnreserved x || keep x) = true
  · rw [quoteChar_of_keep h, List.mem_singleton] at hx
    subst hx
    rw [Bool.or_eq_true] at h
    exact h.imp_left .inl
  · rw [quoteChar_of_escaped h] at hx
    obtain ⟨b, hb, hc⟩ := List.mem_flatMap.mp hx
    exact .inl (isPlain_byteEscape (utf8Bytes_lt b hb) c hc)

/-! ## 3. Runs -/

/-- The bytes of the run are those of the text, whatever follows. -/
def Spells (run text : List Char) : Prop :=
  ∀ rest, runBytes (run ++ rest) = text.flatMap utf8Bytes ++ runBytes rest

theorem spells_nil : Spells [] [] := fun _ => rfl

theorem Spells.append {run text more added : List Char} (h : Spells run text)
    (hmore : Spells more added) : Spells (run ++ more) (text ++ added) := by
  intro rest
  rw [List.append_assoc, h, hmore, List.flatMap_append, List.append_assoc]

theorem Spells.decode {run text : List Char} (h : Spells run text) :
    decodeUtf8 (runBytes run) = text := by
  have := h []
  rw [List.append_nil, runBytes, List.append_nil] at this
  rw [this, decodeUtf8_utf8Bytes]

theorem spells_singleton {c : Char} (h : isAscii c = true) (hne : c ≠ '%') : Spells [c] [c] := by
  intro rest
  rw [List.singleton_append, runBytes_cons hne, List.flatMap_singleton,
    utf8Bytes_ascii (of_decide_eq_true h)]
  rfl

theorem spells_escapes (c : Char) : Spells ((utf8Bytes c).flatMap byteEscape) [c] := by
  intro rest
  rw [runBytes_escapes rest utf8Bytes_lt, List.flatMap_singleton]

/-- ASCII characters go on with a run. -/
theorem decodeRuns_append (rest : List Char) : ∀ {run more : List Char},
    (∀ c ∈ more, isAscii c = true) →
    decodeRuns run (more ++ rest) = decodeRuns (more.reverse ++ run) rest
  | _, [], _ => rfl
  | run, c :: more, h => by
    obtain ⟨hc, hmore⟩ := List.forall_mem_cons.mp h
    rw [List.cons_append, decodeRuns, if_pos hc, decodeRuns_append rest hmore,
      List.reverse_cons, List.append_assoc]
    rfl

/-- **What is escaped behind a run is read behind the text of the run.** -/
theorem decodeRuns_quote (hkeep : keep '%' = false) : ∀ (text : List Char) {run done : List Char},
    Spells run done → decodeRuns run.reverse (quote keep text) = done ++ text
  | [], run, done, h => by
    rw [quote, List.flatMap_nil, decodeRuns, List.reverse_reverse, h.decode, List.append_nil]
  | c :: text, run, done, h => by
    have hgo : (∀ x ∈ quoteChar keep c, isAscii x = true) → Spells (quoteChar keep c) [c] →
        decodeRuns run.reverse (quote keep (c :: text)) = done ++ c :: text := by
      intro hascii hspells
      have ih := decodeRuns_quote hkeep text (h.append hspells)
      rw [quote_cons, decodeRuns_append _ hascii, ← List.reverse_append, ih, List.append_assoc]
      rfl
    by_cases hc : (isUnreserved c || keep c) = true
    · have hne : c ≠ '%' := by
        rintro rfl
        rw [hkeep] at hc
        exact absurd hc (by decide)
      rw [quoteChar_of_keep hc] at hgo
      by_cases hascii : isAscii c = true
      · exact hgo (by simpa using hascii) (spells_singleton hascii hne)
      · -- The run ends at a character beyond ASCII, which is kept as it is.
        have ih := decodeRuns_quote hkeep text spells_nil
        rw [List.reverse_nil, List.nil_append] at ih
        rw [quote_cons, quoteChar_of_keep hc, List.singleton_append, decodeRuns, if_neg hascii,
          List.reverse_reverse, h.decode, ih]
    · rw [quoteChar_of_escaped hc] at hgo
      refine hgo (fun x hx => ?_) (spells_escapes c)
      obtain ⟨b, hb, hx⟩ := List.mem_flatMap.mp hx
      exact (isPlain_byteEscape (utf8Bytes_lt b hb) x hx).isAscii

/-- **What is escaped stands for the text that it was written for.** -/
theorem unquote_quote (hkeep : keep '%' = false) (text : List Char) :
    unquote (quote keep text) = text := by
  have := decodeRuns_quote hkeep text spells_nil
  rwa [List.reverse_nil, List.nil_append] at this

theorem quote_eq_nil_iff (hkeep : keep '%' = false) {text : List Char} :
    quote keep text = [] ↔ text = [] := by
  constructor
  · intro h
    rw [← unquote_quote hkeep text, h]
    rfl
  · rintro rfl
    rfl

end Quoting

end SchemaAssist.Resource
