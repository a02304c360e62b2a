/-
# The reader reads documents

The texts that the reader accepts are the texts of documents, and a document is read as the value
that its tree stands for (`read?_eq_some_iff`).  So what is said of documents is said of every
well-formed JSON text, and to know what a text is read as it is enough to know its tree.

The machine that reads tokens is followed tree by tree: from a state that awaits a value, the tokens
of a tree lead to the state after that value (`Tree.run_tokens`); and where a run ends well, the
tokens in front are those of a tree (`exists_tree`).
-/
import SchemaAssist.Proofs.Json.Lexing

namespace SchemaAssist.Json

open SchemaAssist.Text

/-! ## 1. Tokens and values of trees -/

/-- The value that a bare word stands for. -/
def Bare.value (w : Bare) : Value :=
  (readWord? w.chars).get w.read

/-- The value that a literal stands for. -/
def Quotation.value (q : Quotation) : Value :=
  .str (String.ofList q.text)

/-- The name that a key stands for. -/
def Label.name (l : Label) : String :=
  String.ofList l.key.text

mutual

/-- The tokens of a value. -/
def Tree.tokens : Tree → List Token
  | .bare w => [.word w.chars]
  | .literal q => [.literal q.source]
  | .emptyArray _ => [.openArray, .closeArray]
  | .array elements => .openArray :: (elements.tokens ++ [.closeArray])
  | .emptyObject _ => [.openObject, .closeObject]
  | .object entries => .openObject :: (entries.tokens ++ [.closeObject])

/-- The tokens of the elements of an array. -/
def Elements.tokens : Elements → List Token
  | .last _ t _ => t.tokens
  | .cons _ t _ rest => t.tokens ++ .comma :: rest.tokens

/-- The tokens of the members of an object. -/
def Entries.tokens : Entries → List Token
  | .last label t _ => .literal label.key.source :: .colon :: t.tokens
  | .cons label t _ rest =>
    .literal label.key.source :: .colon :: (t.tokens ++ .comma :: rest.tokens)

end

mutual

/-- The value that a tree stands for; the last of several members of one name counts. -/
def Tree.value : Tree → Value
  | .bare w => w.value
  | .literal q => q.value
  | .emptyArray _ => .arr []
  | .array elements => .arr elements.values
  | .emptyObject _ => .obj []
  | .object entries => .obj (Members.ofPairs entries.members)

/-- The elements of an array. -/
def Elements.values : Elements → List Value
  | .last _ t _ => [t.value]
  | .cons _ t _ rest => t.value :: rest.values

/-- The members of an object as they are written. -/
def Entries.members : Entries → Members
  | .last label t _ => [(label.name, t.value)]
  | .cons label t _ rest => (label.name, t.value) :: rest.members

end

/-! ## 2. Documents are read -/

theorem tokens_label (l : Label) {rest : List Char} {ts : List Token} (h : tokens rest = some ts) :
    tokens (l.chars ++ rest) = some (.literal l.key.source :: .colon :: ts) := by
  have hgap : tokens (l.gap.chars ++ rest) = some ts := by rw [tokens_blanks, h]
  have hcolon := tokens_mark (c := ':') rfl hgap
  have hmid : tokens (l.mid.chars ++ ':' :: (l.gap.chars ++ rest)) = some (.colon :: ts) := by
    rw [tokens_blanks, hcolon]
  have hkey := tokens_literal l.key hmid
  rw [← tokens_blanks l.before] at hkey
  simpa [Label.chars] using hkey

-- The text after a tree is carried along, since a bare word ends only where the rest starts.

mutual

/-- A tree is cut into its tokens. -/
theorem Tree.tokens_chars : ∀ (t : Tree) {rest : List Char} {ts : List Token}, EndsWord rest →
    Json.tokens rest = some ts → Json.tokens (t.chars ++ rest) = some (t.tokens ++ ts)
  | .bare w, rest, ts, hrest, h => tokens_word w hrest h
  | .literal q, rest, ts, _, h => tokens_literal q h
  | .emptyArray inner, rest, ts, _, h => by
    have hclose := tokens_mark (c := ']') rfl h
    rw [← tokens_blanks inner] at hclose
    simpa [Tree.chars, Tree.tokens] using tokens_mark (c := '[') rfl hclose
  | .array elements, rest, ts, _, h => by
    have hclose := tokens_mark (c := ']') rfl h
    have helements := elements.tokens_chars (endsWord_cons.mpr rfl) hclose
    simpa [Tree.chars, Tree.tokens] using tokens_mark (c := '[') rfl helements
  | .emptyObject inner, rest, ts, _, h => by
    have hclose := tokens_mark (c := '}') rfl h
    rw [← tokens_blanks inner] at hclose
    simpa [Tree.chars, Tree.tokens] using tokens_mark (c := '{') rfl hclose
  | .object entries, rest, ts, _, h => by
    have hclose := tokens_mark (c := '}') rfl h
    have hentries := entries.tokens_chars (endsWord_cons.mpr rfl) hclose
    simpa [Tree.chars, Tree.tokens] using tokens_mark (c := '{') rfl hentries

theorem Elements.tokens_chars : ∀ (e : Elements) {rest : List Char} {ts : List Token},
    EndsWord rest → Json.tokens rest = some ts →
      Json.tokens (e.chars ++ rest) = some (e.tokens ++ ts)
  | .last before t after, rest, ts, hrest, h => by
    rw [← tokens_blanks after] at h
    have ht := t.tokens_chars (hrest.blanks after) h
    rw [← tokens_blanks before] at ht
    simpa [Elements.chars, Elements.tokens] using ht
  | .cons before t after others, rest, ts, hrest, h => by
    have hcomma := tokens_mark (c := ',') rfl (others.tokens_chars hrest h)
    have hend : EndsWord (',' :: (others.chars ++ rest)) := endsWord_cons.mpr rfl
    rw [← tokens_blanks after] at hcomma
    have ht := t.tokens_chars (hend.blanks after) hcomma
    rw [← tokens_blanks before] at ht
    simpa [Elements.chars, Elements.tokens] using ht

theorem Entries.tokens_chars : ∀ (e : Entries) {rest : List Char} {ts : List Token},
    EndsWord rest → Json.tokens rest = some ts →
      Json.tokens (e.chars ++ rest) = some (e.tokens ++ ts)
  | .last label t after, rest, ts, hrest, h => by
    rw [← tokens_blanks after] at h
    have ht := t.tokens_chars (hrest.blanks after) h
    simpa [Entries.chars, Entries.tokens] using tokens_label label ht
  | .cons label t after others, rest, ts, hrest, h => by
    have hcomma := tokens_mark (c := ',') rfl (others.tokens_chars hrest h)
    have hend : EndsWord (',' :: (others.chars ++ rest)) := endsWord_cons.mpr rfl
    rw [← tokens_blanks after] at hcomma
    have ht := t.tokens_chars (hend.blanks after) hcomma
    simpa [Entries.chars, Entries.tokens] using tokens_label label ht

end

namespace State

variable {stack : List Pending}

theorem run_cons (s : State) (t : Token) (ts : List Token) :
    s.run (t :: ts) = (s.step t).bind fun s' => s'.run ts := rfl

/-- The first element of an array is read like any other. -/
theorem run_firstItem {t : Token} (ht : t ≠ .closeArray) (ts : List Token) :
    (firstItem stack).run (t :: ts) = (value (.items [] :: stack)).run (t :: ts) := by
  rw [run_cons, run_cons]
  cases t <;> first | rfl | exact absurd rfl ht

/-- The first name of an object is read like any other. -/
theorem run_firstName {t : Token} (ht : t ≠ .closeObject) (ts : List Token) :
    (firstName stack).run (t :: ts) = (name [] stack).run (t :: ts) := by
  rw [run_cons, run_cons]
  cases t <;> first | rfl | exact absurd rfl ht

/-- A key and its colon. -/
theorem run_label (seen : Members) (l : Label) (ts : List Token) :
    (name seen stack).run (.literal l.key.source :: .colon :: ts)
      = (value (.member seen l.name :: stack)).run ts := by
  simp [run_cons, step, startMember, unescape_of_spelled l.key.spelled, Label.name]

end State

theorem Tree.tokens_eq_cons (t : Tree) : ∃ head ts, t.tokens = head :: ts ∧ head ≠ .closeArray := by
  cases t <;> simp [Tree.tokens]

theorem Elements.tokens_eq_cons (e : Elements) :
    ∃ head ts, e.tokens = head :: ts ∧ head ≠ .closeArray := by
  cases e with
  | last before t after => exact t.tokens_eq_cons
  | cons before t after rest =>
    obtain ⟨head, ts, hts, hhead⟩ := t.tokens_eq_cons
    exact ⟨head, ts ++ .comma :: rest.tokens, by simp [Elements.tokens, hts], hhead⟩

theorem Entries.tokens_eq_cons (e : Entries) :
    ∃ head ts, e.tokens = head :: ts ∧ head ≠ .closeObject := by
  cases e <;> simp [Entries.tokens]

mutual

/-- **The tokens of a tree lead to the state after its value.** -/
theorem Tree.run_tokens : ∀ (t : Tree) (stack : List Pending) (ts : List Token),
    (State.value stack).run (t.tokens ++ ts) = (State.complete t.value stack).run ts
  | .bare w, stack, ts => by
    have hvalue : readWord? w.chars = some w.value := (Option.some_get w.read).symm
    simp [Tree.tokens, Tree.value, State.run_cons, State.step, State.start, Token.value?, hvalue]
  | .literal q, stack, ts => by
    simp [Tree.tokens, Tree.value, State.run_cons, State.step, State.start, Token.value?,
      unescape_of_spelled q.spelled, Quotation.value]
  | .emptyArray _, stack, ts => by
    simp [Tree.tokens, Tree.value, State.run_cons, State.step, State.start]
  | .array elements, stack, ts => by
    obtain ⟨head, rest, hrest, hhead⟩ := elements.tokens_eq_cons
    have ih := elements.run_tokens [] stack ts
    rw [hrest, List.cons_append, ← State.run_firstItem hhead] at ih
    simpa [Tree.tokens, Tree.value, hrest, State.run_cons, State.step, State.start] using ih
  | .emptyObject _, stack, ts => by
    simp [Tree.tokens, Tree.value, State.run_cons, State.step, State.start]
  | .object entries, stack, ts => by
    obtain ⟨head, rest, hrest, hhead⟩ := entries.tokens_eq_cons
    have ih := entries.run_tokens [] stack ts
    rw [hrest, List.cons_append, ← State.run_firstName hhead] at ih
    simpa [Tree.tokens, Tree.value, hrest, State.run_cons, State.step, State.start] using ih

theorem Elements.run_tokens : ∀ (e : Elements) (seen : List Value) (stack : List Pending)
    (ts : List Token),
    (State.value (.items seen :: stack)).run (e.tokens ++ .closeArray :: ts)
      = (State.complete (.arr (seen.reverse ++ e.values)) stack).run ts
  | .last _ t _, seen, stack, ts => by
    rw [Elements.tokens, t.run_tokens]
    simp [State.complete, State.run_cons, State.step, Elements.values]
  | .cons _ t _ rest, seen, stack, ts => by
    have ih := rest.run_tokens (t.value :: seen) stack ts
    rw [Elements.tokens, List.append_assoc, t.run_tokens]
    simpa [State.complete, State.run_cons, State.step, Elements.values] using ih

theorem Entries.run_tokens : ∀ (e : Entries) (seen : Members) (stack : List Pending)
    (ts : List Token),
    (State.name seen stack).run (e.tokens ++ .closeObject :: ts)
      = (State.complete (.obj (Members.ofPairs (seen.reverse ++ e.members))) stack).run ts
  | .last label t _, seen, stack, ts => by
    rw [Entries.tokens, List.cons_append, List.cons_append, State.run_label, t.run_tokens]
    simp [State.complete, State.run_cons, State.step, Entries.members]
  | .cons label t _ rest, seen, stack, ts => by
    have ih := rest.run_tokens ((label.name, t.value) :: seen) stack ts
    rw [Entries.tokens, List.cons_append, List.cons_append, State.run_label, List.append_assoc,
      t.run_tokens]
    simpa [State.complete, State.run_cons, State.step, Entries.members] using ih

end

/-- **A document is read as the value of its tree.** -/
theorem Document.read_text (d : Document) : Value.read? d.text = some d.tree.value := by
  have hafter : tokens (d.after.chars ++ []) = some [] := by rw [tokens_blanks]; rfl
  have htree := d.tree.tokens_chars (endsWord_nil.blanks d.after) hafter
  rw [← tokens_blanks d.before] at htree
  have htokens : tokens d.text = some d.tree.tokens := by simpa [Document.text] using htree
  have hrun := d.tree.run_tokens [] []
  rw [List.append_nil] at hrun
  rw [Value.read?, htokens, Option.bind_some, Value.ofTokens?, hrun]
  rfl

/-! ## 3. What is read is a document -/

/-- From a state on, some tokens are read to the end. -/
def State.Accepts (s : State) (ts : List Token) : Prop :=
  ((s.run ts).bind State.result?).isSome = true

namespace State

variable {s : State} {stack : List Pending}

theorem accepts_cons {t : Token} {ts : List Token} :
    s.Accepts (t :: ts) ↔ ∃ s', s.step t = some s' ∧ s'.Accepts ts := by
  rw [Accepts, run_cons]
  cases s.step t <;> simp [Accepts]

/-- Where a value, a name or an end is awaited, more tokens have to come. -/
theorem Accepts.exists_cons {ts : List Token} (h : s.Accepts ts) (hs : s.result? = none) :
    ∃ t ts', ts = t :: ts' ∧ ∃ s', s.step t = some s' ∧ s'.Accepts ts' := by
  cases ts with
  | nil => simp [Accepts, run, hs] at h
  | cons t ts' => exact ⟨t, ts', rfl, accepts_cons.mp h⟩

end State

/-- Where a value is awaited and `n` tokens at most are read to the end, the first of them are those
of a tree. -/
def FindsTree (n : Nat) : Prop :=
  ∀ ⦃stack : List Pending⦄ ⦃ts : List Token⦄ ⦃text : List Char⦄, ts.length ≤ n →
    (State.value stack).Accepts ts → Laid ts text →
      ∃ (b : Blanks) (t : Tree) (ts' : List Token) (rest : List Char),
        text = b.chars ++ (t.chars ++ rest) ∧ ts = t.tokens ++ ts' ∧ Laid ts' rest

/-- The same of the elements of an array. -/
def FindsElements (n : Nat) : Prop :=
  ∀ ⦃seen : List Value⦄ ⦃stack : List Pending⦄ ⦃ts : List Token⦄ ⦃text : List Char⦄,
    ts.length ≤ n → (State.value (.items seen :: stack)).Accepts ts → Laid ts text →
      ∃ (e : Elements) (ts' : List Token) (rest : List Char),
        text = e.chars ++ ']' :: rest ∧ ts = e.tokens ++ .closeArray :: ts' ∧ Laid ts' rest

/-- The same of the members of an object. -/
def FindsEntries (n : Nat) : Prop :=
  ∀ ⦃seen : Members⦄ ⦃stack : List Pending⦄ ⦃ts : List Token⦄ ⦃text : List Char⦄,
    ts.length ≤ n → (State.name seen stack).Accepts ts → Laid ts text →
      ∃ (e : Entries) (ts' : List Token) (rest : List Char),
        text = e.chars ++ '}' :: rest ∧ ts = e.tokens ++ .closeObject :: ts' ∧ Laid ts' rest

variable {n : Nat}

theorem findsTree_succ (helements : FindsElements n) (hentries : FindsEntries n) :
    FindsTree (n + 1) := by
  intro stack ts text hn ha hl
  obtain ⟨token, ts, rfl, s, hstep, ha1⟩ := ha.exists_cons rfl
  obtain ⟨b, rest, rfl, hl1⟩ := hl.exists_token
  have hn1 : ts.length ≤ n := Nat.le_of_succ_le_succ hn
  cases token with
  | openObject =>
    obtain rfl := Option.some.inj hstep
    obtain ⟨head, tail, rfl, -⟩ := ha1.exists_cons rfl
    by_cases hhead : head = .closeObject
    · subst hhead
      obtain ⟨inner, rest, rfl, hl2⟩ := hl1.exists_token
      exact ⟨b, .emptyObject inner, tail, rest, by simp [Tree.chars, Token.chars], rfl, hl2⟩
    · rw [State.Accepts, State.run_firstName hhead] at ha1
      obtain ⟨e, ts, rest, rfl, hts, hl2⟩ := hentries hn1 ha1 hl1
      rw [hts]
      exact ⟨b, .object e, ts, rest, by simp [Tree.chars, Token.chars], by simp [Tree.tokens], hl2⟩
  | openArray =>
    obtain rfl := Option.some.inj hstep
    obtain ⟨head, tail, rfl, -⟩ := ha1.exists_cons rfl
    by_cases hhead : head = .closeArray
    · subst hhead
      obtain ⟨inner, rest, rfl, hl2⟩ := hl1.exists_token
      exact ⟨b, .emptyArray inner, tail, rest, by simp [Tree.chars, Token.chars], rfl, hl2⟩
    · rw [State.Accepts, State.run_firstItem hhead] at ha1
      obtain ⟨e, ts, rest, rfl, hts, hl2⟩ := helements hn1 ha1 hl1
      rw [hts]
      exact ⟨b, .array e, ts, rest, by simp [Tree.chars, Token.chars], by simp [Tree.tokens], hl2⟩
  | literal source =>
    obtain ⟨v, hv, -⟩ := Option.map_eq_some_iff.mp hstep
    obtain ⟨text, htext, -⟩ := Option.map_eq_some_iff.mp hv
    exact ⟨b, .literal ⟨source, text, spelled_of_unescape htext⟩, ts, rest, rfl, rfl, hl1⟩
  | word chars =>
    obtain ⟨v, hv, -⟩ := Option.map_eq_some_iff.mp hstep
    exact ⟨b, .bare ⟨chars, Option.isSome_of_eq_some hv⟩, ts, rest, rfl, rfl, hl1⟩
  | _ => simp [State.step, State.start, Token.value?] at hstep

theorem findsElements_succ (htree : FindsTree (n + 1)) (helements : FindsElements n) :
    FindsElements (n + 1) := by
  intro seen stack ts text hn ha hl
  obtain ⟨b, t, ts, rest, rfl, rfl, hl1⟩ := htree hn ha hl
  rw [State.Accepts, t.run_tokens] at ha
  obtain ⟨token, ts, rfl, s, hstep, ha1⟩ := State.Accepts.exists_cons ha rfl
  obtain ⟨after, rest, rfl, hl2⟩ := hl1.exists_token
  cases token with
  | comma =>
    obtain rfl := Option.some.inj hstep
    simp only [List.length_append, List.length_cons] at hn
    obtain ⟨e, ts, rest, rfl, rfl, hl3⟩ := helements (by omega) ha1 hl2
    exact ⟨.cons b t after e, ts, rest, by simp [Elements.chars, Token.chars],
      by simp [Elements.tokens], hl3⟩
  | closeArray =>
    exact ⟨.last b t after, ts, rest, by simp [Elements.chars, Token.chars], rfl, hl2⟩
  | _ => simp [State.step, State.complete] at hstep

theorem findsEntries_succ (htree : FindsTree (n + 1)) (hentries : FindsEntries n) :
    FindsEntries (n + 1) := by
  intro seen stack ts text hn ha hl
  obtain ⟨token, ts, rfl, s, hstep, ha1⟩ := ha.exists_cons rfl
  obtain ⟨before, rest, rfl, hl1⟩ := hl.exists_token
  cases token with
  | literal source =>
    obtain ⟨text, htext, rfl⟩ := Option.map_eq_some_iff.mp hstep
    obtain ⟨token, ts, rfl, s, hstep, ha2⟩ := ha1.exists_cons rfl
    obtain ⟨mid, rest, rfl, hl2⟩ := hl1.exists_token
    cases token with
    | colon =>
      obtain rfl := Option.some.inj hstep
      simp only [List.length_cons] at hn
      obtain ⟨gap, t, ts, rest, rfl, rfl, hl3⟩ := htree (by omega) ha2 hl2
      rw [State.Accepts, t.run_tokens] at ha2
      obtain ⟨token, ts, rfl, s, hstep, ha3⟩ := State.Accepts.exists_cons ha2 rfl
      obtain ⟨after, rest, rfl, hl4⟩ := hl3.exists_token
      let label : Label := ⟨before, ⟨source, text, spelled_of_unescape htext⟩, mid, gap⟩
      have hlabel : label.chars = before.chars ++ ((Token.literal source).chars
          ++ (mid.chars ++ (Token.colon.chars ++ gap.chars))) := rfl
      cases token with
      | comma =>
        obtain rfl := Option.some.inj hstep
        simp only [List.length_append, List.length_cons] at hn
        obtain ⟨e, ts, rest, rfl, rfl, hl5⟩ := hentries (by omega) ha3 hl4
        exact ⟨.cons label t after e, ts, rest, by simp [Entries.chars, hlabel, Token.chars],
          by simp [Entries.tokens, label], hl5⟩
      | closeObject =>
        exact ⟨.last label t after, ts, rest, by simp [Entries.chars, hlabel, Token.chars],
          by simp [Entries.tokens, label], hl4⟩
      | _ => simp [State.step, State.complete] at hstep
    | _ => simp [State.step] at hstep
  | _ => simp [State.step, State.startMember] at hstep

/-- **Wherever a value is awaited and all goes well, a tree comes first.**  The induction is on the
number of tokens, since the tokens of a tree are not known before it is found. -/
theorem finds : ∀ n, FindsTree n ∧ FindsElements n ∧ FindsEntries n
  | 0 => by
    refine ⟨?_, ?_, ?_⟩
    · intro _ ts _ hn ha _
      obtain ⟨_, _, rfl, -⟩ := ha.exists_cons rfl
      simp at hn
    · intro _ _ ts _ hn ha _
      obtain ⟨_, _, rfl, -⟩ := ha.exists_cons rfl
      simp at hn
    · intro _ _ ts _ hn ha _
      obtain ⟨_, _, rfl, -⟩ := ha.exists_cons rfl
      simp at hn
  | n + 1 => by
    obtain ⟨-, helements, hentries⟩ := finds n
    have htree := findsTree_succ helements hentries
    exact ⟨htree, findsElements_succ htree helements, findsEntries_succ htree hentries⟩

/-- **The reader reads exactly the documents**, each as the value of its tree. -/
theorem Value.read?_eq_some_iff {text : List Char} {v : Value} :
    Value.read? text = some v ↔ ∃ d : Document, d.text = text ∧ d.tree.value = v := by
  constructor
  · intro h
    obtain ⟨ts, hts, hread⟩ := Option.bind_eq_some_iff.mp h
    have ha : (State.value []).Accepts ts := Option.isSome_of_eq_some hread
    obtain ⟨before, t, ts', rest, rfl, rfl, hl⟩ :=
      (finds ts.length).1 (Nat.le_refl _) ha (laid_of_tokens hts)
    rw [State.Accepts, t.run_tokens] at ha
    cases ts' with
    | nil =>
      obtain ⟨after, rfl⟩ := hl.exists_blanks
      have hd := (⟨before, t, after⟩ : Document).read_text
      exact ⟨⟨before, t, after⟩, rfl, Option.some.inj (hd.symm.trans h)⟩
    | cons t' ts' => simp [State.complete, State.run, State.step] at ha
  · rintro ⟨d, rfl, rfl⟩
    exact d.read_text

end SchemaAssist.Json
