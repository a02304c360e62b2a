/-
# Analyses that are right at every cut

The principle by which a statement about the text before a cut and the place of the cut is proved
for all cuts of all documents.

An analysis reads on from what it knows of the text before, so the statement `P` comes with an
invariant `I` that holds between tokens.  `Leads I P s m s'` says that a piece of text takes the
invariant from one stage to another and that `P` holds at every cut inside; pieces that meet are put
together by `Leads.append`.  `Sound` lists what has to be shown, one item for each kind of token,
and `Sound.document` draws the conclusion by induction on the document.
-/
import SchemaAssist.Proofs.Json.Place

namespace SchemaAssist.Json

open SchemaAssist.Text

/-! ## 1. Statements about all cuts -/

/-- `P` holds at every cut of a text that comes after `before`: of what lies before the cut, and of
the place. -/
def Holds (P : List Char → Place → Prop) : List Char → Cuts → Prop
  | _, [] => True
  | before, (c, p) :: m => P (before ++ [c]) p ∧ Holds P (before ++ [c]) m

variable {P : List Char → Place → Prop}

theorem holds_append : ∀ (before : List Char) (m m' : Cuts),
    Holds P before (m ++ m') ↔ Holds P before m ∧ Holds P (before ++ m.chars) m'
  | before, [], m' => by simp [Holds]
  | before, (c, p) :: m, m' => by
    have ih := holds_append (before ++ [c]) m m'
    simp only [List.append_assoc, List.singleton_append] at ih
    simp [Holds, ih, and_assoc]

/-- A statement about all cuts, by the ways to take a marked text apart at a character. -/
theorem holds_of_forall : ∀ {before : List Char} {m : Cuts},
    (∀ u c p v, m = u ++ (c, p) :: v → P (before ++ (Cuts.chars u ++ [c])) p) → Holds P before m
  | _, [], _ => trivial
  | before, (c, p) :: m, h => by
    refine ⟨h [] c p m rfl, holds_of_forall ?_⟩
    intro u d q v hm
    have := h ((c, p) :: u) d q v (by rw [hm]; rfl)
    simpa using this

/-- Where all places are the same, `P` is asked of every text up to a cut. -/
theorem holds_const {before cs : List Char} {p : Place}
    (h : ∀ u v, cs = u ++ v → u ≠ [] → P (before ++ u) p) :
    Holds P before (Cuts.const cs p) := by
  apply holds_of_forall
  intro u c q v hm
  have hmem : (c, q) ∈ Cuts.const cs p := by
    rw [hm]
    simp
  have hq : q = p := Cuts.snd_of_mem_const hmem
  have hcs : cs = (Cuts.chars u ++ [c]) ++ Cuts.chars v := by
    have := congrArg Cuts.chars hm
    simpa using this
  rw [hq]
  exact h _ _ hcs (by simp)

theorem Holds.getElem : ∀ {before : List Char} {m : Cuts}, Holds P before m →
    ∀ (n : Nat) (hn : n < m.length), P (before ++ m.chars.take (n + 1)) m[n].2
  | before, (c, p) :: m, h, 0, _ => h.1
  | before, (c, p) :: m, h, n + 1, hn => by
    have := Holds.getElem h.2 n (by simpa using hn)
    simpa using this

/-- What holds at the start and at every cut of the places holds at every cut of the document. -/
theorem Document.holds_placeAt {d : Document} (h0 : P [] (Stage.place ⟨[], .value⟩))
    (h : Holds P [] d.cuts) : ∀ n ≤ d.text.length, P (d.text.take n) (d.placeAt n)
  | 0, _ => by simpa [placeAt] using h0
  | n + 1, hn => by
    have hlt : n < d.cuts.length := by rw [d.length_cuts]; omega
    have := h.getElem n hlt
    simpa [placeAt, List.getElem?_eq_getElem hlt] using this

/-! ## 2. Pieces of text -/

variable {I : Stage → List Char → Prop}

/-- From one stage to another a piece of text keeps the invariant, and `P` holds at its cuts. -/
def Leads (I : Stage → List Char → Prop) (P : List Char → Place → Prop) (s : Stage) (m : Cuts)
    (s' : Stage) : Prop :=
  ∀ before, I s before → Holds P before m ∧ I s' (before ++ m.chars)

theorem Leads.nil (s : Stage) : Leads I P s [] s :=
  fun before h => ⟨trivial, by simpa using h⟩

theorem Leads.append {a b c : Stage} {m m' : Cuts} (h : Leads I P a m b) (h' : Leads I P b m' c) :
    Leads I P a (m ++ m') c := by
  intro before ha
  obtain ⟨hm, hb⟩ := h before ha
  obtain ⟨hm', hc⟩ := h' _ hb
  refine ⟨(holds_append before m m').mpr ⟨hm, hm'⟩, ?_⟩
  simpa using hc

theorem Leads.cons {a b c : Stage} {x : Char × Place} {m : Cuts} (h : Leads I P a [x] b)
    (h' : Leads I P b m c) : Leads I P a (x :: m) c :=
  h.append h'

/-! ## 3. What has to be shown -/

/-- An analysis reads every kind of token rightly.  It may ask something of the labels of members,
and of the string literals. -/
structure Sound (I : Stage → List Char → Prop) (P : List Char → Place → Prop)
    (label : Label → Prop) (quotation : Quotation → Prop) : Prop where
  blank : ∀ (s : Stage) {c : Char}, isJsonBlank c = true → Leads I P s [(c, s.place)] s
  bare : ∀ (levels : List Level) (w : Bare),
    Leads I P ⟨levels, .value⟩ (Cuts.const w.chars ⟨levels, .token⟩) ⟨levels, .done⟩
  /-- A string that is a value. -/
  literal : ∀ (levels : List Level) (q : Quotation), quotation q →
    Leads I P ⟨levels, .value⟩ (q.cuts levels) ⟨levels, .done⟩
  openArray : ∀ levels : List Level,
    Leads I P ⟨levels, .value⟩ [('[', Stage.place ⟨.array :: levels, .value⟩)]
      ⟨.array :: levels, .value⟩
  closeArray : ∀ (levels : List Level) {phase : Phase}, phase ≠ .name →
    Leads I P ⟨.array :: levels, phase⟩ [(']', Stage.place ⟨levels, .done⟩)] ⟨levels, .done⟩
  openObject : ∀ levels : List Level,
    Leads I P ⟨levels, .value⟩ [('{', Stage.place ⟨.object none :: levels, .name⟩)]
      ⟨.object none :: levels, .name⟩
  closeObject : ∀ (levels : List Level) (key : Option String) {phase : Phase}, phase ≠ .value →
    Leads I P ⟨.object key :: levels, phase⟩ [('}', Stage.place ⟨levels, .done⟩)] ⟨levels, .done⟩
  nextElement : ∀ levels : List Level,
    Leads I P ⟨.array :: levels, .done⟩ [(',', Stage.place ⟨.array :: levels, .value⟩)]
      ⟨.array :: levels, .value⟩
  nextMember : ∀ (levels : List Level) (key : Option String),
    Leads I P ⟨.object key :: levels, .done⟩ [(',', Stage.place ⟨.object none :: levels, .name⟩)]
      ⟨.object none :: levels, .name⟩
  /-- The key of a member and its colon. -/
  head : ∀ (levels : List Level) (l : Label), label l → quotation l.key →
    Leads I P ⟨.object none :: levels, .name⟩ (l.head levels) ⟨l.levels levels, .value⟩

namespace Sound

variable {label : Label → Prop} {quotation : Quotation → Prop}

theorem blanks (h : Sound I P label quotation) (s : Stage) (b : Blanks) :
    Leads I P s (b.cuts s) s := by
  obtain ⟨chars, hb⟩ := b
  induction chars with
  | nil => exact Leads.nil s
  | cons c cs ih =>
    have hcs : ∀ x ∈ cs, isJsonBlank x = true := by
      intro x hx
      exact hb x (List.mem_cons_of_mem c hx)
    exact (h.blank s (hb c List.mem_cons_self)).cons (ih hcs)

theorem labelCuts (h : Sound I P label quotation) (levels : List Level) {l : Label} (hl : label l)
    (hq : quotation l.key) :
    Leads I P ⟨.object none :: levels, .name⟩ (l.cuts levels) ⟨l.levels levels, .value⟩ :=
  (h.blanks _ l.before).append ((h.head levels l hl hq).append (h.blanks _ l.gap))

mutual

theorem tree (h : Sound I P label quotation) : ∀ (levels : List Level) (t : Tree),
    (∀ l ∈ t.labels, label l) → (∀ q ∈ t.quotations, quotation q) →
    Leads I P ⟨levels, .value⟩ (t.cuts levels) ⟨levels, .done⟩
  | levels, .bare w, _, _ => h.bare levels w
  | levels, .literal q, _, hq => h.literal levels q (hq q (by simp [Tree.quotations]))
  | levels, .emptyArray inner, _, _ => by
    have hinner := h.blanks ⟨.array :: levels, .value⟩ inner
    exact (h.openArray levels).cons (hinner.append (h.closeArray levels (by simp)))
  | levels, .array elements, hl, hq => by
    have hm := elementsCuts h levels elements hl hq
    exact (h.openArray levels).cons (hm.append (h.closeArray levels (by simp)))
  | levels, .emptyObject inner, _, _ => by
    have hinner := h.blanks ⟨.object none :: levels, .name⟩ inner
    exact (h.openObject levels).cons (hinner.append (h.closeObject levels none (by simp)))
  | levels, .object entries, hl, hq => by
    -- After the members the current key is that of the last one.
    obtain ⟨key, hm⟩ := entriesCuts h levels entries hl hq
    exact (h.openObject levels).cons (hm.append (h.closeObject levels key (by simp)))

theorem elementsCuts (h : Sound I P label quotation) : ∀ (levels : List Level) (e : Elements),
    (∀ l ∈ e.labels, label l) → (∀ q ∈ e.quotations, quotation q) →
    Leads I P ⟨.array :: levels, .value⟩ (e.cuts levels) ⟨.array :: levels, .done⟩
  | levels, .last before t after, hl, hq => by
    have ht := tree h (.array :: levels) t hl hq
    exact (h.blanks _ before).append (ht.append (h.blanks _ after))
  | levels, .cons before t after rest, hl, hq => by
    simp only [Elements.labels, Elements.quotations, List.forall_mem_append] at hl hq
    have ht := tree h (.array :: levels) t hl.1 hq.1
    have hrest := elementsCuts h levels rest hl.2 hq.2
    exact (h.blanks _ before).append
      (ht.append ((h.blanks _ after).append ((h.nextElement levels).cons hrest)))

theorem entriesCuts (h : Sound I P label quotation) : ∀ (levels : List Level) (e : Entries),
    (∀ l ∈ e.labels, label l) → (∀ q ∈ e.quotations, quotation q) →
    ∃ key, Leads I P ⟨.object none :: levels, .name⟩ (e.cuts levels) ⟨.object key :: levels, .done⟩
  | levels, .last l t after, hl, hq => by
    simp only [Entries.labels, Entries.quotations, List.forall_mem_cons] at hl hq
    have hlabel := h.labelCuts levels hl.1 hq.1
    have ht := tree h (l.levels levels) t hl.2 hq.2
    exact ⟨_, hlabel.append (ht.append (h.blanks _ after))⟩
  | levels, .cons l t after rest, hl, hq => by
    simp only [Entries.labels, Entries.quotations, List.forall_mem_cons,
      List.forall_mem_append] at hl hq
    have hlabel := h.labelCuts levels hl.1 hq.1
    have ht := tree h (l.levels levels) t hl.2.1 hq.2.1
    obtain ⟨key, hrest⟩ := entriesCuts h levels rest hl.2.2 hq.2.2
    exact ⟨key, hlabel.append
      (ht.append ((h.blanks _ after).append ((h.nextMember levels _).cons hrest)))⟩

end

/-- **An analysis that reads every kind of token rightly is right at every cut of every
document.** -/
theorem document (h : Sound I P label quotation) {d : Document} (hl : ∀ l ∈ d.labels, label l)
    (hq : ∀ q ∈ d.quotations, quotation q) (hI : I ⟨[], .value⟩ [])
    (h0 : P [] (Stage.place ⟨[], .value⟩)) :
    ∀ n ≤ d.text.length, P (d.text.take n) (d.placeAt n) := by
  have hd : Leads I P ⟨[], .value⟩ d.cuts ⟨[], .done⟩ :=
    (h.blanks _ d.before).append ((h.tree [] d.tree hl hq).append (h.blanks _ d.after))
  exact Document.holds_placeAt h0 (hd [] hI).1

end Sound

end SchemaAssist.Json
