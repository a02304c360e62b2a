/-
# The containers that are open

The scan for open containers counts braces and brackets outside literals.  In a document these
counts are those of the grammar at every cut: the objects and the arrays that are open
(`scan_at_cut`).

Everything but the braces and brackets themselves passes without effect: blanks, bare words, commas,
colons, and literals whatever they hold (`Passes`).
-/
import SchemaAssist.Cursor.Containers
import SchemaAssist.Proofs.Cursor.Literal
import SchemaAssist.Proofs.Json.CutInduction

namespace SchemaAssist.Cursor

open SchemaAssist.Json SchemaAssist.Text

/-! ## 1. Counting levels -/

/-- How many of some containers are objects. -/
def openObjects (levels : List Level) : Nat :=
  levels.countP fun level => level != .array

/-- How many of some containers are arrays. -/
def openArrays (levels : List Level) : Nat :=
  levels.countP (· == .array)

@[simp] theorem openObjects_array (levels : List Level) :
    openObjects (.array :: levels) = openObjects levels := by
  simp [openObjects]

@[simp] theorem openObjects_object (key : Option String) (levels : List Level) :
    openObjects (.object key :: levels) = openObjects levels + 1 := by
  simp [openObjects]

@[simp] theorem openArrays_array (levels : List Level) :
    openArrays (.array :: levels) = openArrays levels + 1 := by
  simp [openArrays]

@[simp] theorem openArrays_object (key : Option String) (levels : List Level) :
    openArrays (.object key :: levels) = openArrays levels := by
  simp [openArrays]

/-- The scan finds so many objects and arrays open. -/
def Finds (objects arrays : Nat) (text : List Char) : Prop :=
  (Containers.scan text).braces = objects ∧ (Containers.scan text).brackets = arrays

/-- The scan has the counts of a place. -/
def Counts (text : List Char) (p : Place) : Prop :=
  Finds (openObjects p.levels) (openArrays p.levels) text

/-- The scan has the counts of a stage, and no literal is open. -/
def Counted (s : Stage) (before : List Char) : Prop :=
  Counts before s.place ∧ (Containers.scan before).quote = .outside

/-! ## 2. What passes without effect -/

/-- From a state of literals on, a text holds no brace or bracket outside literals. -/
def Passes : Quote → List Char → Prop
  | _, [] => True
  | q, c :: cs =>
    (q = .outside → Containers.braceDelta c = 0 ∧ Containers.bracketDelta c = 0)
      ∧ Passes (q.step c) cs

theorem passes_append {q : Quote} : ∀ {a b : List Char},
    Passes q (a ++ b) ↔ Passes q a ∧ Passes (q.after a) b
  | [], _ => by simp [Passes]
  | c :: a, b => by simp [Passes, passes_append, and_assoc]

/-- A literal that is open passes. -/
theorem passes_of_stays {q : Quote} : ∀ {cs : List Char}, q.Stays cs → Passes q cs
  | [], _ => trivial
  | _ :: _, h => ⟨fun hq => absurd hq h.1, passes_of_stays h.2⟩

theorem deltas_of_isNeutral {c : Char} (h : IsNeutral c) :
    Containers.braceDelta c = 0 ∧ Containers.bracketDelta c = 0 := by
  simp only [IsNeutral, List.mem_cons, List.not_mem_nil, or_false, not_or] at h
  simp [Containers.braceDelta, Containers.bracketDelta, h]

theorem passes_of_neutral : ∀ {cs : List Char}, (∀ c ∈ cs, IsNeutral c) → Passes .outside cs
  | [], _ => trivial
  | c :: cs, h => by
    have hc := h c List.mem_cons_self
    have hcs : Passes .outside cs := by
      apply passes_of_neutral
      intro x hx
      exact h x (List.mem_cons_of_mem c hx)
    constructor
    · intro _
      exact deltas_of_isNeutral hc
    · simpa [Quote.step, hc.ne_quote] using hcs

/-- A literal passes and is closed at its end. -/
theorem passes_quotation (q : Quotation) :
    Passes .outside q.chars ∧ Quote.outside.after q.chars = .outside := by
  have hbody := body_of_spelled q.spelled
  have hopen : Quote.outside.step '"' = .inside := rfl
  have hclose : Passes .inside ['"'] := by simp [Passes]
  constructor
  · refine ⟨fun _ => ⟨by decide, by decide⟩, ?_⟩
    rw [hopen, passes_append, hbody.after]
    exact ⟨passes_of_stays hbody.stays, hclose⟩
  · rw [Quotation.chars, Quote.after_cons, hopen, Quote.after_append, hbody.after]
    rfl

/-! ## 3. Token by token -/

/-- A text that passes leaves the counts as they are, all along. -/
theorem finds_of_passes {objects arrays : Nat} : ∀ {cs before : List Char},
    Finds objects arrays before → Passes (Containers.scan before).quote cs →
    Finds objects arrays (before ++ cs)
  | [], before, h, _ => by simpa using h
  | c :: cs, before, h, hpass => by
    have hscan := Containers.scan_concat before c
    have hc : Finds objects arrays (before ++ [c]) := by
      rw [Finds, hscan]
      by_cases hq : (Containers.scan before).quote = .outside
      · simp [Containers.step, hq, h.1, h.2, hpass.1 hq]
      · simp [Containers.step, hq, h.1, h.2]
    have hpass' : Passes (Containers.scan (before ++ [c])).quote cs := by
      rw [hscan]
      exact hpass.2
    simpa using finds_of_passes hc hpass'

/-- A text outside literals that passes, at places and between stages with the same containers. -/
theorem leads_of_passes {s s' : Stage} {m : Cuts} (hpass : Passes .outside m.chars)
    (hafter : Quote.outside.after m.chars = .outside)
    (hm : ∀ x ∈ m, openObjects x.2.levels = openObjects s.levels
      ∧ openArrays x.2.levels = openArrays s.levels)
    (hs : openObjects s'.levels = openObjects s.levels
      ∧ openArrays s'.levels = openArrays s.levels) :
    Leads Counted Counts s m s' := by
  rintro before ⟨hb, hq⟩
  -- The counts stay up to any cut inside, so the places inside and the end are all alike.
  have hprefix : ∀ u v, m.chars = u ++ v → Finds (openObjects s.levels) (openArrays s.levels)
      (before ++ u) := by
    intro u v huv
    rw [huv, passes_append] at hpass
    exact finds_of_passes hb (by rw [hq]; exact hpass.1)
  refine ⟨holds_of_forall ?_, ?_, ?_⟩
  · intro u c p v hsplit
    obtain ⟨ho, ha⟩ := hm (c, p) (by simp [hsplit])
    rw [Counts, ho, ha]
    refine hprefix _ (Cuts.chars v) ?_
    rw [hsplit]
    simp
  · have := hprefix m.chars [] (by simp)
    rw [Counts, Stage.place, hs.1, hs.2]
    exact this
  · have hscan : (Containers.scan (before ++ m.chars)).quote
        = (Containers.scan before).quote.after m.chars := by
      rw [Containers.scan, List.foldl_append, Containers.quote_foldl_step, Containers.scan]
    rw [hscan, hq, hafter]

/-- A brace or a bracket. -/
theorem leads_of_mark_counts {s s' : Stage} {c : Char} (hc : c ≠ '"')
    (ho : (openObjects s'.levels : Int) = openObjects s.levels + Containers.braceDelta c)
    (ha : (openArrays s'.levels : Int) = openArrays s.levels + Containers.bracketDelta c) :
    Leads Counted Counts s [(c, s'.place)] s' := by
  rintro before ⟨hb, hq⟩
  have hcounts : Counts (before ++ [c]) s'.place := by
    rw [Counts, Finds, Containers.scan_concat]
    simp [Containers.step, hq, hb.1, hb.2, Stage.place, ho, ha]
  refine ⟨⟨hcounts, trivial⟩, hcounts, ?_⟩
  simp [Containers.scan_concat, Containers.step, hq, Quote.step, hc]

/-! ## 4. All cuts of all documents -/

/-- A bare word, a blank or a comma between elements. -/
theorem leads_of_neutral_counts {s s' : Stage} {cs : List Char} {p : Place}
    (hcs : ∀ c ∈ cs, IsNeutral c) (hp : p.levels = s.levels) (hs : s'.levels = s.levels) :
    Leads Counted Counts s (Cuts.const cs p) s' := by
  refine leads_of_passes ?_ ?_ ?_ (by simp [hs])
  · rw [Cuts.chars_const]
    exact passes_of_neutral hcs
  · rw [Cuts.chars_const]
    exact Quote.after_neutral hcs
  · simp [Cuts.const, hp]

/-- The key of a member, the blanks after it and its colon. -/
theorem leads_head_counts (levels : List Level) (l : Label) :
    Leads Counted Counts ⟨.object none :: levels, .name⟩ (l.head levels)
      ⟨l.levels levels, .value⟩ := by
  have hmid : ∀ c ∈ l.mid.chars ++ [':'], IsNeutral c := by
    intro c hc
    rcases List.mem_append.mp hc with hc | hc
    · exact isNeutral_of_isJsonBlank (l.mid.blank c hc)
    · rw [List.mem_singleton.mp hc]
      decide
  obtain ⟨hpass, hafter⟩ := passes_quotation l.key
  refine leads_of_passes ?_ ?_ ?_ (by simp [Label.levels])
  · rw [Label.chars_head, passes_append, hafter]
    exact ⟨hpass, passes_of_neutral hmid⟩
  · rw [Label.chars_head, Quote.after_append, hafter, Quote.after_neutral hmid]
  · intro x hx
    rcases List.mem_append.mp hx with hx | hx
    · rw [Cuts.snd_of_mem_const hx]
      simp
    · rw [List.mem_singleton.mp hx]
      simp [Label.levels]

/-- A string that is a value. -/
theorem leads_literal_counts (levels : List Level) (q : Quotation) :
    Leads Counted Counts ⟨levels, .value⟩ (q.cuts levels) ⟨levels, .done⟩ := by
  obtain ⟨hpass, hafter⟩ := passes_quotation q
  refine leads_of_passes (by simpa using hpass) (by simpa using hafter) ?_ (by simp)
  intro x hx
  rcases List.mem_append.mp hx with hx | hx
  · rw [Cuts.snd_of_mem_const hx]
    simp
  · rw [List.mem_singleton.mp hx]
    simp

/-- The scan reads every kind of token rightly. -/
theorem sound_scan : Sound Counted Counts (fun _ => True) (fun _ => True) where
  blank s _ hc :=
    leads_of_mark_counts (isNeutral_of_isJsonBlank hc).ne_quote
      (by simp [deltas_of_isNeutral (isNeutral_of_isJsonBlank hc)])
      (by simp [deltas_of_isNeutral (isNeutral_of_isJsonBlank hc)])
  bare levels w :=
    leads_of_neutral_counts (fun c hc => isNeutral_of_isBareChar (w.isBareChar c hc)) rfl rfl
  literal levels q _ := leads_literal_counts levels q
  openArray levels := leads_of_mark_counts (by decide) (by simp [Containers.braceDelta])
    (by simp [Containers.bracketDelta])
  closeArray levels _ _ := leads_of_mark_counts (by decide) (by simp [Containers.braceDelta])
    (by
      have hdelta : Containers.bracketDelta ']' = -1 := rfl
      simp only [openArrays_array, hdelta]
      omega)
  openObject levels := leads_of_mark_counts (by decide) (by simp [Containers.braceDelta])
    (by simp [Containers.bracketDelta])
  closeObject levels key _ _ := leads_of_mark_counts (by decide)
    (by
      have hdelta : Containers.braceDelta '}' = -1 := rfl
      simp only [openObjects_object, hdelta]
      omega)
    (by simp [Containers.bracketDelta])
  nextElement levels := leads_of_mark_counts (by decide) (by simp [Containers.braceDelta])
    (by simp [Containers.bracketDelta])
  nextMember levels key := leads_of_mark_counts (by decide) (by simp [Containers.braceDelta])
    (by simp [Containers.bracketDelta])
  head levels l _ _ := leads_head_counts levels l

/-- **At every cut the scan has counted the objects and the arrays that are open.** -/
theorem scan_at_cut (d : Document) : ∀ n ≤ d.text.length,
    (Containers.scan (d.text.take n)).braces = openObjects (d.placeAt n).levels
      ∧ (Containers.scan (d.text.take n)).brackets = openArrays (d.placeAt n).levels :=
  sound_scan.document (fun _ _ => trivial) (fun _ _ => trivial) ⟨⟨rfl, rfl⟩, rfl⟩ ⟨rfl, rfl⟩

end SchemaAssist.Cursor
