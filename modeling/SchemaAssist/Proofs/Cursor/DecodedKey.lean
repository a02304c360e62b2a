/-
# Keys are decoded as the reader reads strings

The walk takes the source of a key as it stands if it holds no backslash, and has it read as a
literal otherwise; a source that is no literal stands for itself.  The short way gives the same as
the reader would: without a backslash a literal spells nothing but its own source, and a source that
a quote or a control keeps from being a literal stands for itself anyway.

So a decoded key is what the reader makes of its source between quotes wherever it makes anything of
it (`decodeKey_of_read`), and the source of a key that was written is decoded to the key, whatever
the layout escapes (`exists_source_of_text`).  Half a surrogate pair that is escaped stands for no
character, so a source that holds one is refused.
-/
import SchemaAssist.Proofs.Cursor.Literal
import SchemaAssist.Proofs.Json.Writing

namespace SchemaAssist.Cursor

open SchemaAssist.Json SchemaAssist.Text

/-! ## 1. A literal that is read by itself -/

/-- A value that starts with a quote is a literal. -/
theorem exists_literal_of_chars {t : Tree} {after rest : List Char}
    (h : t.chars ++ after = '"' :: rest) : ∃ q : Quotation, t = .literal q := by
  cases t with
  | bare w =>
    obtain ⟨c, cs, hcs⟩ := List.exists_cons_of_ne_nil w.chars_ne_nil
    rw [Tree.chars, hcs, List.cons_append] at h
    obtain ⟨rfl, -⟩ := List.cons.inj h
    have hbare := w.isBareChar '"' (by simp [hcs])
    exact absurd hbare (by decide)
  | literal q => exact ⟨q, rfl⟩
  | emptyArray | array | emptyObject | object => simp [Tree.chars] at h

/-- No blanks stand behind a literal if the text ends with a quote. -/
theorem source_of_chars {q : Quotation} {after : Blanks} {source : List Char}
    (h : q.chars ++ after.chars = '"' :: (source ++ ['"'])) : q.source = source := by
  rw [Quotation.chars, List.cons_append] at h
  obtain ⟨-, h⟩ := List.cons.inj h
  rcases List.eq_nil_or_concat after.chars with hafter | ⟨front, last, hafter⟩
  · rw [hafter, List.append_nil] at h
    exact (List.append_inj' h rfl).1
  · rw [List.concat_eq_append] at hafter
    rw [hafter, ← List.append_assoc] at h
    obtain ⟨-, hlast⟩ := List.append_inj' h rfl
    obtain rfl : last = '"' := by simpa using hlast
    have hblank := after.blank '"' (by simp [hafter])
    exact absurd hblank (by decide)

/-- **A source between quotes is read just if it spells a text**, and as that text. -/
theorem read_between_quotes_iff {source : List Char} {v : Value} :
    Value.read? ('"' :: (source ++ ['"'])) = some v
      ↔ ∃ text, Spelled source text ∧ v = .str (String.ofList text) := by
  constructor
  · intro h
    obtain ⟨⟨before, tree, after⟩, htext, rfl⟩ := Value.read?_eq_some_iff.mp h
    obtain ⟨blanks, hblank⟩ := before
    cases blanks with
    | nil =>
      obtain ⟨q, rfl⟩ := exists_literal_of_chars htext
      obtain rfl := source_of_chars htext
      exact ⟨q.text, q.spelled, rfl⟩
    | cons c cs =>
      obtain ⟨rfl, -⟩ := List.cons.inj htext
      exact absurd (hblank '"' (by simp)) (by decide)
  · rintro ⟨text, hspelled, rfl⟩
    have hwritten : Written ('"' :: (source ++ ['"'])) (.str (String.ofList text)) :=
      ⟨.literal ⟨source, text, hspelled⟩, rfl, rfl⟩
    exact hwritten.read

/-! ## 2. Decoding -/

/-- What the reader makes of a source between quotes is the string that the source is decoded to. -/
theorem decodeKey_of_read {source : List Char} {v : Value}
    (h : Value.read? ('"' :: (source ++ ['"'])) = some v) : v = .str (decodeKey source) := by
  obtain ⟨text, hspelled, rfl⟩ := read_between_quotes_iff.mp h
  rw [decodeKey_of_spelled hspelled]

/-- A source that is no literal between quotes stands for itself. -/
theorem decodeKey_of_not_read {source : List Char}
    (h : Value.read? ('"' :: (source ++ ['"'])) = none) :
    decodeKey source = String.ofList source := by
  have hread : unescape source = none := by
    rw [Option.eq_none_iff_forall_ne_some]
    intro text htext
    have := read_between_quotes_iff.mpr ⟨text, spelled_of_unescape htext, rfl⟩
    rw [h] at this
    cases this
  rw [decodeKey, hread, Option.getD_none, ite_self]

/-- The inside of the literal that a layout writes for a key is decoded to the key. -/
theorem exists_source_of_text (l : Layout) (key : String) :
    ∃ source, ((Value.str key).text l).toList = '"' :: (source ++ ['"'])
      ∧ decodeKey source = key := by
  refine ⟨escape l.ascii key.toList, ?_, ?_⟩
  · rw [Value.text, String.toList_ofList, Value.write, quoted, List.cons_append]
  · rw [decodeKey_of_spelled (spelled_escape l.ascii key.toList), String.ofList_toList]

/-- **Decoding agrees with the reader and undoes writing.**  A source is decoded to the string that
the reader gives for it between quotes, if it gives any, which is never another kind of value, and
to itself if the reader refuses it; and what any layout writes between the quotes of a key is
decoded to the key. -/
theorem decodeKey_reads (source : List Char) :
    (∀ v, Value.read? ('"' :: (source ++ ['"'])) = some v → v = .str (decodeKey source))
      ∧ (Value.read? ('"' :: (source ++ ['"'])) = none → decodeKey source = String.ofList source)
      ∧ ∀ (l : Layout) (key : String), ∃ inside,
          ((Value.str key).text l).toList = '"' :: (inside ++ ['"']) ∧ decodeKey inside = key := by
  refine ⟨?_, decodeKey_of_not_read, exists_source_of_text⟩
  intro v h
  exact decodeKey_of_read h

/-- The escapes of a surrogate pair and of a slash are read, and a tab that is not escaped is
refused. -/
theorem decodeKey_reads_pair :
    let pair := "\\ud83d\\ude00\\/".toList
    let tab := ['a', '\t', 'b']
    Value.read? ('"' :: (pair ++ ['"'])) = some (.str "😀/")
      ∧ Value.str "😀/" = .str (decodeKey pair)
      ∧ Value.read? ('"' :: (tab ++ ['"'])) = none
      ∧ decodeKey tab = String.ofList tab := by
  intro pair tab
  have hpair : Value.read? ('"' :: (pair ++ ['"'])) = some (.str "😀/") :=
    read_between_quotes_iff.mpr ⟨['😀', '/'], spelled_of_unescape (by decide), rfl⟩
  have htab : Value.read? ('"' :: (tab ++ ['"'])) = none := by decide +kernel
  obtain ⟨hread, -, -⟩ := decodeKey_reads pair
  obtain ⟨-, hrefused, -⟩ := decodeKey_reads tab
  exact ⟨hpair, hread _ hpair, htab, hrefused htab⟩

end SchemaAssist.Cursor
