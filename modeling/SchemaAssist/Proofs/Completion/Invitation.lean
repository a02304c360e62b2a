/-
# Where an inline suggestion is offered

An inline suggestion is offered behind a colon, as long as nothing but blanks follows on the line of
the cursor.  The colon has to end the line up to the cursor, but nothing looks at whether it stands
in a literal.  So there are suggestions inside literals too, in two ways:

* `TypesString`: the value of a member is a string that is being typed and ends with a colon;
* `SwapsQuotes`: what stands between two literals is taken for a key, since the quote that closes
  the first of them is taken for one that opens a literal.

`inline_at_colon` says that there are no others, and that both ways lead to suggestions for some
schema.
-/
import SchemaAssist.Proofs.Completion.Suggest
import SchemaAssist.Proofs.Cursor.NamedMember

namespace SchemaAssist.Completion

open SchemaAssist.Cursor SchemaAssist.Json SchemaAssist.Schema SchemaAssist.Text

/-! ## 1. Lines that end in a colon -/

/-- The text ends with a colon and blanks, all on one line. -/
inductive EndsInColonOnLine : List Char → Prop where
  | intro {front blanks : List Char} : (∀ c ∈ blanks, isBlank c = true) → '\n' ∉ blanks →
      EndsInColonOnLine (front ++ ':' :: blanks)

/-- A line with a colon is what stands before its last colon, and what follows. -/
theorem exists_append_afterLastColon {line : List Char} (h : ':' ∈ line) :
    ∃ front, line = front ++ ':' :: afterLastColon line := by
  obtain ⟨rest, front, hreverse, hrest⟩ := List.eq_append_cons_of_mem (List.mem_reverse.mpr h)
  have hline : line = front.reverse ++ ':' :: rest.reverse := by
    rw [← List.reverse_reverse line, hreverse]
    simp
  have hlast : afterLastColon line = rest.reverse := by
    rw [hline]
    exact afterLastColon_append _ (by simpa using hrest)
  exact ⟨front.reverse, by rw [hlast]; exact hline⟩

theorem EndsInColonOnLine.isAfterColon {text : List Char} (h : EndsInColonOnLine text) :
    isAfterColon text = true := by
  obtain @⟨front, blanks, hblank, -⟩ := h
  rw [Cursor.isAfterColon, endsInColon_of_colon front hblank, Bool.true_or]

/-- **A value is invited where the text ends with a colon and blanks on one line.** -/
theorem invitesValueAt_iff {text : List Char} {index : Nat} :
    invitesValueAt text index = true ↔ EndsInColonOnLine (text.take index) := by
  rw [invitesValueAt]
  constructor
  · intro h
    obtain ⟨hafter, hblank⟩ := Bool.and_eq_true_iff.mp h
    obtain ⟨before, htext⟩ := exists_append_afterLastLineFeed (text.take index)
    have hcolon : ':' ∈ afterLastLineFeed (text.take index) := by
      by_contra hcolon
      rw [not_isAfterColon_of_not_mem hcolon] at hafter
      cases hafter
    obtain ⟨front, hline⟩ := exists_append_afterLastColon hcolon
    have hfeed := lineFeed_not_mem_afterLastLineFeed (text.take index)
    rw [hline, ← List.append_assoc] at htext
    rw [htext]
    refine .intro (List.all_eq_true.mp hblank) fun hmem => hfeed ?_
    rw [hline]
    simp [hmem]
  · generalize text.take index = before
    rintro @⟨front, blanks, hblank, hfeed⟩
    have hline : '\n' ∉ ':' :: blanks := by simp [hfeed]
    rw [afterLastLineFeed_append_of_not_mem _ hline]
    exact invitesValue_of_colon _ hblank

/-! ## 2. Values on such a line -/

/-- Such a line does not end in a bare word. -/
theorem EndsInColonOnLine.endsPlain {text : List Char} (h : EndsInColonOnLine text) :
    EndsPlain text := by
  obtain @⟨front, blanks, hblank, -⟩ := h
  rcases List.eq_nil_or_concat blanks with rfl | ⟨inner, c, rfl⟩
  · exact endsPlain_concat (by decide +kernel)
  · have hc := not_isBare_of_isBlank (hblank c (by simp))
    have hplain : EndsPlain (front ++ ':' :: inner ++ [c]) := endsPlain_concat hc
    simpa using hplain

/-- A string literal that is open. -/
def IsOpenString (value : List Char) : Prop :=
  ∃ source, value = '"' :: source ∧ staysOpen source = true

theorem IsOpenString.isPartialValue {value : List Char} (h : IsOpenString value) :
    isPartialValue value = true := by
  obtain ⟨source, rfl, hopen⟩ := h
  simpa [Cursor.isPartialValue] using hopen

theorem IsOpenString.after {value : List Char} (h : IsOpenString value) :
    Quote.outside.after value = .inside := by
  obtain ⟨source, rfl, hopen⟩ := h
  exact after_of_staysOpen hopen

/-- A member that ends in a colon has no value yet, or an open string. -/
theorem EndsInColonOnLine.value {front value text : List Char} (h : EndsInColonOnLine text)
    (hmember : EndsInMember front value text) (hvalue : IsMissingOrPartial value) :
    value = [] ∨ IsOpenString value := by
  refine hvalue.imp_right fun hpartial => ?_
  cases value with
  | nil => cases hpartial
  | cons c cs =>
    rw [isPartialValue] at hpartial
    split at hpartial
    · rename_i hc
      exact ⟨cs, by rw [hc], hpartial⟩
    · obtain @⟨key, mid, gap, -, -, -, -⟩ := hmember
      have hplain := h.endsPlain
      have hassoc : front ++ '"' :: (key ++ '"' :: (mid ++ ':' :: (gap ++ c :: cs)))
          = (front ++ '"' :: (key ++ '"' :: (mid ++ ':' :: gap))) ++ c :: cs := by simp
      rw [hassoc] at hplain
      rw [hplain.of_append.all_isBare (List.cons_ne_nil c cs)] at hpartial
      cases hpartial

/-! ## 3. Suggestions -/

/-- An object for each name of a path, and a leaf at its end. -/
def nested (leaf : Node) : List String → Node
  | [] => leaf
  | name :: path => .object { types := ["object"] } [(name, nested leaf path)] []

theorem navigate?_nested (leaf : Node) (path : List String) :
    (nested leaf path).navigate? path = some leaf := by
  induction path with
  | nil => rfl
  | cons name path ih => simpa [nested, Node.navigate?_cons, Node.child?, Members.find?] using ih

theorem isSome_valuePath_iff {context : Context} : context.valuePath?.isSome = true
    ↔ context.afterColon = true ∧ context.propertyName.isSome = true := by
  unfold Context.valuePath?
  split
  · split <;> simp_all
  · rename_i hnone
    cases hafter : context.afterColon with
    | false => simp
    | true => cases hname : context.propertyName with
      | none => simp
      | some name => exact absurd hname (hnone name hafter)

/-- **An inline suggestion is possible just where the text ends with a colon and blanks on one line,
and a property is found.** -/
theorem exists_inline_iff (e : Engine) (text : List Char) (offset : Int) :
    (∃ root s, e.inline root text offset = some s)
      ↔ EndsInColonOnLine (text.take (toIndex e.config.encoding text offset))
        ∧ (propertyName? (text.take (toIndex e.config.encoding text offset))).isSome = true := by
  have hpath : EndsInColonOnLine (text.take (toIndex e.config.encoding text offset)) →
      ((Context.ofOffset e.config text offset).valuePath?.isSome = true
        ↔ (propertyName? (text.take (toIndex e.config.encoding text offset))).isSome = true) := by
    intro hends
    rw [isSome_valuePath_iff]
    simp only [Context.ofOffset, Context.atIndex, hends.isAfterColon, true_and, if_true]
  constructor
  · rintro ⟨root, s, hs⟩
    unfold Engine.inline at hs
    split at hs
    · rename_i hinvites
      have hends := invitesValueAt_iff.mp hinvites
      obtain ⟨n, hn, -⟩ := Option.bind_eq_some_iff.mp hs
      obtain ⟨path, hvalue, -⟩ := Option.bind_eq_some_iff.mp hn
      exact ⟨hends, (hpath hends).mp (Option.isSome_of_eq_some hvalue)⟩
    · cases hs
  · rintro ⟨hends, hname⟩
    obtain ⟨path, hvalue⟩ := Option.isSome_iff_exists.mp ((hpath hends).mpr hname)
    -- A tree in which the path leads to a leaf with the default `null`.
    refine ⟨nested (.scalar { types := [], default := some .null }) path, "null", ?_⟩
    rw [Engine.inline, if_pos (invitesValueAt_iff.mpr hends), hvalue, Option.bind_some,
      navigate?_nested]
    rfl

/-! ## 4. Suggestions inside literals -/

/-- The text ends in a member whose value is an open string. -/
def TypesString (text : List Char) : Prop :=
  ∃ front value, EndsInMember front value text ∧ IsOpenString value
    ∧ Quote.outside.after front ≠ .inside

/-- The text ends in what would be a member without a value or with an open string, but for the
quote of the key, which closes a literal. -/
def SwapsQuotes (text : List Char) : Prop :=
  ∃ front value, EndsInMember front value text ∧ (value = [] ∨ IsOpenString value)
    ∧ Quote.outside.after front = .inside

theorem inString_scan (text : List Char) :
    (Containers.scan text).inString = (Quote.outside.after text).isOpen :=
  congrArg Quote.isOpen (Containers.quote_foldl_step text {})

/-- Where a string is being typed a literal is open. -/
theorem TypesString.inString {text : List Char} (h : TypesString text) :
    (Containers.scan text).inString = true := by
  obtain ⟨front, value, hmember, hvalue, hfront⟩ := h
  rw [inString_scan, hmember.after hfront, hvalue.after]
  rfl

/-- In both ways a property is found. -/
theorem isSome_propertyName_of_misled {text : List Char} (h : TypesString text ∨ SwapsQuotes text) :
    (propertyName? text).isSome = true := by
  rw [isSome_propertyName_iff]
  rcases h with ⟨front, value, hmember, hvalue, -⟩ | ⟨front, value, hmember, hvalue, -⟩
  · exact ⟨front, value, hmember, .inr hvalue.isPartialValue⟩
  · exact ⟨front, value, hmember, hvalue.imp_right IsOpenString.isPartialValue⟩

/-- **An inline suggestion stands behind a colon that ends the line up to the cursor, and no literal
is open there, unless a string is being typed or quotes are swapped.**  Both happen: wherever such a
text ends in a colon there is a schema with a suggestion, in the first case inside the string that
is being typed. -/
theorem inline_at_colon (e : Engine) (text : List Char) (offset : Int) :
    let before := text.take (toIndex e.config.encoding text offset)
    (∀ root s, e.inline root text offset = some s →
        EndsInColonOnLine before ∧ ((Containers.scan before).inString = false
          ∨ TypesString before ∨ SwapsQuotes before))
      ∧ (EndsInColonOnLine before → TypesString before ∨ SwapsQuotes before →
          ∃ root s, e.inline root text offset = some s)
      ∧ (TypesString before → (Containers.scan before).inString = true) := by
  intro before
  refine ⟨fun root s hs => ?_, fun hends hmisled => ?_, TypesString.inString⟩
  · obtain ⟨hends, hname⟩ := (exists_inline_iff e text offset).mp ⟨root, s, hs⟩
    refine ⟨hends, ?_⟩
    obtain ⟨front, value, hmember, hvalue⟩ := isSome_propertyName_iff.mp hname
    have hvalue := hends.value hmember hvalue
    by_cases hfront : Quote.outside.after front = .inside
    · exact .inr (.inr ⟨front, value, hmember, hvalue, hfront⟩)
    · rcases hvalue with rfl | hvalue
      · left
        rw [inString_scan, hmember.after hfront]
        rfl
      · exact .inr (.inl ⟨front, value, hmember, hvalue, hfront⟩)
  · exact (exists_inline_iff e text offset).mpr ⟨hends, isSome_propertyName_of_misled hmisled⟩

/-- An object with a number under a name. -/
def numberUnder (name : String) : Node :=
  .object { types := ["object"] } [(name, .scalar { types := ["integer"], default := some (.int 5) })]
    []

/-- Inside a string that is being typed and ends with a colon. -/
theorem inline_at_colon_typed :
    Engine.inline {} (numberUnder "k") "\x7b\"k\": \"a:".toList 9 = some "5"
      ∧ EndsInColonOnLine "\x7b\"k\": \"a:".toList
      ∧ (TypesString "\x7b\"k\": \"a:".toList ∨ SwapsQuotes "\x7b\"k\": \"a:".toList) := by
  have hinline : Engine.inline {} (numberUnder "k") "\x7b\"k\": \"a:".toList 9 = some "5" := by
    decide +kernel
  have h := inline_at_colon {} "\x7b\"k\": \"a:".toList 9
  obtain ⟨hends, hstring⟩ := h.1 (numberUnder "k") "5" hinline
  refine ⟨hinline, hends, hstring.resolve_left ?_⟩
  decide +kernel

/-- **There are inline suggestions inside strings**: behind a colon of a string that is being typed,
and behind one that starts the second string of an array, with `, ` taken for a key. -/
theorem inline_inside_string :
    (Engine.inline {} (numberUnder "k") "\x7b\"k\": \"a:".toList 9 = some "5"
        ∧ (Containers.scan ("\x7b\"k\": \"a:".toList.take 9)).inString = true)
      ∧ Engine.inline {} (.array { types := ["array"] } (some (numberUnder ", ")))
          "[\"a\", \":".toList 8 = some "5"
        ∧ (Containers.scan ("[\"a\", \":".toList.take 8)).inString = true := by
  decide +kernel

end SchemaAssist.Completion
