/-
# The path of keys is the path of the document

The walk over the text before the cursor knows nothing of the grammar: it has a stack of containers,
a flag for names and a window in which it looks for colons.  This file proves that at every cut of
every document it has nevertheless found the path that the grammar gives the cut, inside literals
and half-read members included.

What the walk finds at a closing quote depends on the text after the quote, up to the cut.  So the
invariant says of a text between tokens that reading it, *whatever comes next*, leads to a walk that
is `At` the stage (`Reached`).  The key of a member and its colon are one piece for that reason: the
walk takes the key when it closes the literal, the grammar counts it from the colon on, and the two
agree because the walk has the key only if the colon lies before the cut as well.

* `walk_at_cut`: the path and the open containers of the walk at every cut;
* `keyPath_at_cut`: the path of keys at every cut.
-/
import Mathlib.Data.List.TakeWhile
import SchemaAssist.Proofs.Cursor.Literal
import SchemaAssist.Proofs.Json.CutInduction

namespace SchemaAssist.Cursor

open SchemaAssist.Json SchemaAssist.Text

/-! ## 1. The search for a colon -/

/-- Whether a colon is the first character that is not blank among the next `k`. -/
def colonWithin (k : Nat) (rest : List Char) : Bool :=
  startsWithColon (rest.take k)

theorem colonFollows_natCast (size k : Nat) : colonFollows size (k : Int) = colonWithin k := by
  funext rest
  rw [colonFollows, windowSize_natCast, colonWithin]

/-- Among blanks there is no colon. -/
theorem colonWithin_of_blank {k : Nat} {cs : List Char} (h : ∀ c ∈ cs, isBlank c = true) :
    colonWithin k cs = false := by
  have hnil : (cs.take k).dropWhile isBlank = [] := by
    rw [List.dropWhile_eq_nil_iff]
    intro c hc
    exact h c (List.mem_of_mem_take hc)
  simp [colonWithin, startsWithColon, hnil]

/-- A colon after blanks is found if the window reaches it. -/
theorem colonWithin_of_colon {k : Nat} {cs rest : List Char} (h : ∀ c ∈ cs, isBlank c = true)
    (hk : cs.length < k) : colonWithin k (cs ++ ':' :: rest) = true := by
  obtain ⟨n, rfl⟩ : ∃ n, k = cs.length + (n + 1) := ⟨k - cs.length - 1, by omega⟩
  rw [colonWithin, List.take_append, List.take_of_length_le (by omega), startsWithColon,
    List.dropWhile_append_of_pos h]
  simp [isBlank_colon]

/-! ## 2. The walk over a piece of text -/

namespace Walk

variable {isKey : List Char → Bool} {w : Walk}

/-- A character outside literals other than a quote. -/
theorem run_mark (hw : w.quote = .outside) {c : Char} (hc : c ≠ '"') (rest : List Char) :
    run isKey w (c :: rest) = run isKey { w.mark c with quote := .outside } rest := by
  simp [run, step, hw, Quote.step, hc]

theorem mark_of_isNeutral {c : Char} (h : IsNeutral c) : w.mark c = w := by
  simp only [IsNeutral, List.mem_cons, List.not_mem_nil, or_false, not_or] at h
  obtain ⟨h1, h2, h3, h4, h5, h6⟩ := h
  simp [mark, h1, h2, h3, h4, h5, h6]

theorem run_neutral (hw : w.quote = .outside) (rest : List Char) : ∀ {cs : List Char},
    (∀ c ∈ cs, IsNeutral c) → run isKey w (cs ++ rest) = run isKey w rest
  | [], _ => rfl
  | c :: cs, h => by
    have hc : IsNeutral c := h c List.mem_cons_self
    have hw' : { w with quote := .outside } = w := by rw [← hw]
    rw [List.cons_append, run_mark hw hc.ne_quote, mark_of_isNeutral hc, hw']
    apply run_neutral hw rest
    intro x hx
    exact h x (List.mem_cons_of_mem c hx)

/-- The walk inside a literal that was opened here and of which `source` was read. -/
def opened (w : Walk) (source : List Char) : Walk :=
  { w with source := source.reverse, quote := Quote.inside.after source }

theorem run_stays (rest : List Char) : ∀ {cs : List Char} {w : Walk}, w.quote.Stays cs →
    run isKey w (cs ++ rest)
      = run isKey { w with source := cs.reverse ++ w.source, quote := w.quote.after cs } rest
  | [], _, _ => rfl
  | c :: cs, w, h => by
    have hclosed : ¬ (w.quote = .inside ∧ c = '"') := by
      rintro ⟨hw, rfl⟩
      have := h.2.ne_outside
      simp [hw, Quote.step] at this
    have hstep : w.step isKey c (cs ++ rest)
        = { w with source := c :: w.source, quote := w.quote.step c } := by
      simp [step, inside, h.1, hclosed]
    have hstays : (w.step isKey c (cs ++ rest)).quote.Stays cs := by
      rw [hstep]
      exact h.2
    rw [List.cons_append, run, run_stays rest hstays, hstep]
    simp

/-- A literal that is not closed yet. -/
theorem run_opened (hw : w.quote = .outside) {source : List Char}
    (h : Quote.inside.Stays source) (rest : List Char) :
    run isKey w ('"' :: (source ++ rest)) = run isKey (w.opened source) rest := by
  have hstep : w.step isKey '"' (source ++ rest)
      = { w with source := [], quote := .inside } := by
    simp [step, hw, mark, Quote.step]
  rw [run, hstep, run_stays rest h]
  simp [opened]

/-- The walk after a literal of which `source` was read, `key` saying whether it is a key. -/
def closed (w : Walk) (source : List Char) (key : Bool) : Walk :=
  let w := w.opened source
  { (if !source.isEmpty && key then w.pushKey (decodeKey source) else w) with quote := .outside }

/-- A literal that is closed. -/
theorem run_closed (hw : w.quote = .outside) {source : List Char} (h : Body source)
    (rest : List Char) :
    run isKey w ('"' :: (source ++ '"' :: rest))
      = run isKey (w.closed source (isKey rest)) rest := by
  have hstep : (w.opened source).step isKey '"' rest = w.closed source (isKey rest) := by
    simp [step, inside, opened, closed, h.after, Quote.step]
  rw [run_opened hw h.stays, run, hstep]

/-- Where no name is awaited, a literal is no key. -/
theorem closed_of_not_expecting (h : w.expectingKey = false) (source : List Char) (key : Bool) :
    w.closed source key = { w.opened source with quote := .outside } := by
  have hpush : (w.opened source).pushKey (decodeKey source) = w.opened source := by
    have : (w.opened source).expectingKey = false := h
    simp [pushKey, this]
  simp only [closed, hpush, ite_self]

end Walk

/-! ## 3. The walk at a stage -/

/-- What the walk keeps of an open container. -/
def frameOf : Level → Frame
  | .array => ⟨.array, 1⟩
  | .object none => ⟨.object, 0⟩
  | .object (some _) => ⟨.object, 1⟩

/-- The walk has the path and the containers of a place. -/
structure Fits (levels : List Level) (w : Walk) : Prop where
  path : w.path = levels.flatMap Level.segments
  frames : w.frames = levels.map frameOf

/-- The walk is between tokens, at a stage. -/
structure At (s : Stage) (w : Walk) : Prop extends Fits s.levels w where
  quote : w.quote = .outside
  /-- Names are awaited where the grammar has them. -/
  expecting : w.expectingKey = decide (s.phase = .name)

/-- Reading `before` leads to a walk that is at a stage, whatever comes next. -/
def Reached (k : Nat) (s : Stage) (before : List Char) : Prop :=
  ∃ w, At s w ∧
    ∀ rest, Walk.run (colonWithin k) {} (before ++ rest) = Walk.run (colonWithin k) w rest

/-- The walk over a text fits a place. -/
def Tracks (k : Nat) (text : List Char) (p : Place) : Prop :=
  Fits p.levels (Walk.run (colonWithin k) {} text)

theorem Reached.start (k : Nat) : Reached k ⟨[], .value⟩ [] :=
  ⟨{}, ⟨⟨rfl, rfl⟩, rfl, rfl⟩, fun _ => rfl⟩

/-- Reading on where the grammar reads on. -/
theorem Reached.step {k : Nat} {s s' : Stage} {before cs : List Char} (h : Reached k s before)
    (hcs : ∀ w, At s w → ∃ w', At s' w' ∧
      ∀ rest, Walk.run (colonWithin k) w (cs ++ rest) = Walk.run (colonWithin k) w' rest) :
    Reached k s' (before ++ cs) := by
  obtain ⟨w, hw, hrun⟩ := h
  obtain ⟨w', hw', hrun'⟩ := hcs w hw
  refine ⟨w', hw', ?_⟩
  intro rest
  rw [List.append_assoc, hrun, hrun']

/-- The walk fits the stage that it has reached. -/
theorem Reached.tracks {k : Nat} {s : Stage} {before : List Char} (h : Reached k s before)
    {p : Place} (hp : p.levels = s.levels) : Tracks k before p := by
  obtain ⟨w, hw, hrun⟩ := h
  have := hrun []
  simp only [List.append_nil, Walk.run] at this
  rw [Tracks, this, hp]
  exact hw.toFits

/-! ## 4. Token by token -/

variable {k : Nat}

/-- A character outside literals that takes the walk from one stage to another. -/
theorem leads_of_mark {s s' : Stage} {c : Char} (hc : c ≠ '"')
    (h : ∀ w, At s w → At s' { w.mark c with quote := .outside }) :
    Leads (Reached k) (Tracks k) s [(c, s'.place)] s' := by
  intro before hb
  have hreached : Reached k s' (before ++ [c]) := by
    apply hb.step
    intro w hw
    refine ⟨_, h w hw, ?_⟩
    intro rest
    exact Walk.run_mark hw.quote hc rest
  exact ⟨⟨hreached.tracks rfl, trivial⟩, hreached⟩

/-- Characters that the walk passes over. -/
theorem leads_of_neutral {s s' : Stage} {cs : List Char} {p : Place} (hcs : ∀ c ∈ cs, IsNeutral c)
    (h : ∀ w, At s w → At s' w) (hp : p.levels = s'.levels) :
    Leads (Reached k) (Tracks k) s (Cuts.const cs p) s' := by
  intro before hb
  have hreached : ∀ u v, cs = u ++ v → Reached k s' (before ++ u) := by
    intro u v huv
    have hu : ∀ c ∈ u, IsNeutral c := by
      intro c hc
      exact hcs c (by simp [huv, hc])
    apply hb.step
    intro w hw
    refine ⟨w, h w hw, ?_⟩
    intro rest
    exact Walk.run_neutral hw.quote rest hu
  constructor
  · apply holds_const
    intro u v huv _
    exact (hreached u v huv).tracks hp
  · rw [Cuts.chars_const]
    exact hreached cs [] (by simp)

/-- Closing the innermost container takes its part off the path. -/
theorem At.close {level : Level} {levels : List Level} {phase : Phase} {w : Walk}
    (h : At ⟨level :: levels, phase⟩ w) :
    At ⟨levels, .done⟩ { w.close with quote := .outside } := by
  have hdrop : w.path.drop (frameOf level).segments = levels.flatMap Level.segments := by
    rw [h.path]
    match level with
    | .array => rfl
    | .object none => rfl
    | .object (some _) => rfl
  have hframes := h.frames
  simp only [List.map_cons] at hframes
  rw [Walk.close, hframes]
  exact ⟨⟨hdrop, rfl⟩, rfl, rfl⟩

theorem At.openArray {levels : List Level} {w : Walk} (h : At ⟨levels, .value⟩ w) :
    At ⟨.array :: levels, .value⟩ { w.mark '[' with quote := .outside } :=
  ⟨⟨by simp [Walk.mark, h.path, Level.segments, arrayPlaceholder],
    by simp [Walk.mark, h.frames, frameOf]⟩, rfl, rfl⟩

theorem At.openObject {levels : List Level} {w : Walk} (h : At ⟨levels, .value⟩ w) :
    At ⟨.object none :: levels, .name⟩ { w.mark '{' with quote := .outside } :=
  ⟨⟨by simp [Walk.mark, h.path, Level.segments], by simp [Walk.mark, h.frames, frameOf]⟩, rfl, rfl⟩

/-- A comma between elements changes nothing. -/
theorem At.nextElement {levels : List Level} {w : Walk} (h : At ⟨.array :: levels, .done⟩ w) :
    At ⟨.array :: levels, .value⟩ { w.endMember with quote := .outside } := by
  have hframes := h.frames
  simp only [List.map_cons, frameOf] at hframes
  rw [Walk.endMember, hframes]
  exact ⟨⟨h.path, hframes⟩, rfl, h.expecting⟩

theorem At.endMember {key : Option String} {levels : List Level} {w : Walk}
    (h : At ⟨.object key :: levels, .done⟩ w) :
    At ⟨.object none :: levels, .name⟩ { w.endMember with quote := .outside } := by
  have hpath := h.path
  have hframes := h.frames
  cases key with
  | none =>
    simp only [List.map_cons, frameOf] at hframes
    rw [Walk.endMember, hframes]
    exact ⟨⟨hpath, rfl⟩, rfl, rfl⟩
  | some key =>
    simp only [List.map_cons, frameOf] at hframes
    rw [Walk.endMember, hframes, hpath]
    exact ⟨⟨rfl, rfl⟩, rfl, rfl⟩

/-- While a literal is open, the walk stays where the literal was opened. -/
theorem Reached.tracks_opened {s : Stage} {before : List Char} (h : Reached k s before)
    {source u v : List Char} (hsource : Body source) (huv : source = u ++ v) {p : Place}
    (hp : p.levels = s.levels) : Tracks k (before ++ '"' :: u) p := by
  obtain ⟨w, hw, hrun⟩ := h
  have hu : Quote.inside.Stays u := by
    have := hsource.stays
    rw [huv] at this
    exact this.of_append
  have hopened : Walk.run (colonWithin k) w ('"' :: u) = w.opened u := by
    have := @Walk.run_opened (colonWithin k) w hw.quote u hu []
    rwa [List.append_nil] at this
  rw [Tracks, hrun, hopened, hp]
  exact ⟨hw.path, hw.frames⟩

/-- A string that is a value. -/
theorem leads_literal (levels : List Level) (q : Quotation) :
    Leads (Reached k) (Tracks k) ⟨levels, .value⟩ (q.cuts levels) ⟨levels, .done⟩ := by
  intro before hb
  have hbody := body_of_spelled q.spelled
  have hreached : Reached k ⟨levels, .done⟩ (before ++ q.chars) := by
    apply hb.step
    intro w hw
    refine ⟨{ w.opened q.source with quote := .outside }, ?_, ?_⟩
    · exact ⟨⟨hw.path, hw.frames⟩, rfl, hw.expecting⟩
    · intro rest
      -- No name is awaited here, so it does not matter whether a colon follows.
      rw [← Walk.closed_of_not_expecting hw.expecting q.source (colonWithin k rest),
        ← Walk.run_closed hw.quote hbody rest]
      simp [Quotation.chars]
  have hinside : Holds (Tracks k) before (Cuts.const ('"' :: q.source) ⟨levels, .token⟩) := by
    apply holds_const
    intro u v huv hu
    cases u with
    | nil => exact absurd rfl hu
    | cons c u =>
      obtain ⟨rfl, hsource⟩ := List.cons.inj huv
      exact hb.tracks_opened hbody hsource rfl
  refine ⟨(holds_append _ _ _).mpr ⟨hinside, ?_, trivial⟩, ?_⟩
  · have := hreached.tracks (p := Stage.place ⟨levels, .done⟩) rfl
    simpa [Quotation.chars] using this
  · simpa using hreached

/-- A literal where a name is awaited is not taken unless it is a key. -/
theorem At.closed_false {s : Stage} {w : Walk} (h : At s w) (source : List Char) :
    At s (w.closed source false) := by
  simp only [Walk.closed, Bool.and_false, Bool.false_eq_true, if_false]
  exact ⟨⟨h.path, h.frames⟩, rfl, h.expecting⟩

/-- A key is put on the path. -/
theorem At.closed_true {levels : List Level} {w : Walk} (h : At ⟨.object none :: levels, .name⟩ w)
    {source text : List Char} (hs : Spelled source text) (ht : text ≠ []) :
    At ⟨.object (some (String.ofList text)) :: levels, .value⟩ (w.closed source true) := by
  have hne : source.isEmpty = false := by simpa using hs.source_ne_nil ht
  have hexpecting : (w.opened source).expectingKey = true := h.expecting
  have hframes : (w.opened source).frames = ⟨.object, 0⟩ :: levels.map frameOf := h.frames
  have hpath : (w.opened source).path = levels.flatMap Level.segments := h.path
  simp only [Walk.closed, hne, Bool.not_false, Bool.and_self, if_true, Walk.pushKey, hexpecting,
    hframes, hpath, decodeKey_of_spelled hs]
  exact ⟨⟨rfl, rfl⟩, rfl, rfl⟩

/-- A literal and blanks after it, where the colon that makes it a key is found or not. -/
theorem Walk.run_key {w : Walk} (hw : w.quote = .outside) (q : Quotation) {mid : List Char}
    (hmid : ∀ c ∈ mid, IsNeutral c) (rest : List Char) :
    Walk.run (colonWithin k) w (q.chars ++ (mid ++ rest))
      = Walk.run (colonWithin k) (w.closed q.source (colonWithin k (mid ++ rest))) rest := by
  have hbody := body_of_spelled q.spelled
  rw [← Walk.run_neutral rfl rest hmid, ← Walk.run_closed hw hbody (mid ++ rest)]
  simp [Quotation.chars]

/-- The key of a member and its colon. -/
theorem leads_head (levels : List Level) {l : Label} (hkey : l.key.text ≠ [])
    (hmid : l.mid.chars.length < k) :
    Leads (Reached k) (Tracks k) ⟨.object none :: levels, .name⟩ (l.head levels)
      ⟨l.levels levels, .value⟩ := by
  intro before hb
  have hblank : ∀ c ∈ l.mid.chars, isBlank c = true := forall_isBlank l.mid.blank
  have hneutral : ∀ c ∈ l.mid.chars, IsNeutral c := by
    intro c hc
    exact isNeutral_of_isJsonBlank (l.mid.blank c hc)
  have hreached : Reached k ⟨l.levels levels, .value⟩
      (before ++ (l.key.chars ++ (l.mid.chars ++ [':']))) := by
    apply hb.step
    intro w hw
    refine ⟨w.closed l.key.source true, hw.closed_true l.key.spelled hkey, ?_⟩
    intro rest
    have hrun := Walk.run_key (k := k) hw.quote l.key hneutral ([':'] ++ rest)
    have hcolon : ∀ c ∈ [':'], IsNeutral c := by simp [IsNeutral]
    rw [Walk.run_neutral rfl rest hcolon, List.singleton_append,
      colonWithin_of_colon hblank hmid] at hrun
    simpa using hrun
  have hafter : ∀ m m', l.mid.chars = m ++ m' →
      Tracks k (before ++ (l.key.chars ++ m)) ⟨.object none :: levels, .key⟩ := by
    intro m m' hm
    obtain ⟨w, hw, hrun⟩ := hb
    have hmem : ∀ c ∈ m, c ∈ l.mid.chars := by
      intro c hc
      rw [hm]
      exact List.mem_append_left m' hc
    have hneutral' : ∀ c ∈ m, IsNeutral c := by
      intro c hc
      exact hneutral c (hmem c hc)
    have hnone : colonWithin k m = false := by
      apply colonWithin_of_blank
      intro c hc
      exact hblank c (hmem c hc)
    have hkeyrun := Walk.run_key (k := k) hw.quote l.key hneutral' []
    simp only [List.append_nil, Walk.run, hnone] at hkeyrun
    rw [Tracks, hrun, hkeyrun]
    exact (hw.closed_false _).toFits
  -- A cut before the colon is inside the key or after it; either way no key is on the path.
  have hbefore : Holds (Tracks k) before
      (Cuts.const (l.key.chars ++ l.mid.chars) ⟨.object none :: levels, .key⟩) := by
    apply holds_const
    intro u v huv hu
    rcases List.append_eq_append_iff.mp huv with ⟨m, rfl, hm⟩ | ⟨x, hx, -⟩
    · exact hafter m v hm
    · rcases List.eq_nil_or_concat x with rfl | ⟨y, z, rfl⟩
      · have := hafter [] l.mid.chars rfl
        rwa [hx, List.append_nil, List.append_nil] at this
      · cases u with
        | nil => exact absurd rfl hu
        | cons c u =>
          obtain ⟨rfl, hx'⟩ := List.cons.inj hx
          have hx' : l.key.source ++ ['"'] = (u ++ y) ++ [z] := by simpa using hx'
          obtain ⟨hsource, -⟩ := List.append_inj' hx' rfl
          exact hb.tracks_opened (body_of_spelled l.key.spelled) hsource rfl
  refine ⟨(holds_append _ _ _).mpr ⟨hbefore, ?_, trivial⟩, by simpa using hreached⟩
  have := hreached.tracks (p := Stage.place ⟨l.levels levels, .value⟩) rfl
  simpa using this

/-! ## 5. All cuts of all documents -/

/-- The walk reads every kind of token rightly. -/
theorem sound_walk (k : Nat) :
    Sound (Reached k) (Tracks k) (fun l => l.key.text ≠ [] ∧ l.mid.chars.length < k)
      (fun _ => True) where
  blank s _ hc := leads_of_mark (isNeutral_of_isJsonBlank hc).ne_quote fun w h => by
    rw [Walk.mark_of_isNeutral (isNeutral_of_isJsonBlank hc)]
    exact ⟨⟨h.path, h.frames⟩, rfl, h.expecting⟩
  bare levels w :=
    leads_of_neutral (fun c hc => isNeutral_of_isBareChar (w.isBareChar c hc))
      (fun _ h => ⟨h.toFits, h.quote, h.expecting⟩) rfl
  literal levels q _ := leads_literal levels q
  openArray levels := leads_of_mark (by decide) fun w h => h.openArray
  closeArray levels _ _ := leads_of_mark (by decide) fun w h => h.close
  openObject levels := leads_of_mark (by decide) fun w h => h.openObject
  closeObject levels key _ _ := leads_of_mark (by decide) fun w h => h.close
  nextElement levels := leads_of_mark (by decide) fun w h => h.nextElement
  nextMember levels key := leads_of_mark (by decide) fun w h => h.endMember
  head levels l hl _ := leads_head levels hl.1 hl.2

/-- **At every cut the walk has the path and the containers of the place.** -/
theorem walk_at_cut {d : Document} {k : Nat}
    (h : ∀ l ∈ d.labels, l.key.text ≠ [] ∧ l.mid.chars.length < k) :
    ∀ n ≤ d.text.length, Fits (d.placeAt n).levels (Walk.ofText (d.text.take n) k) := by
  intro n hn
  have := (sound_walk k).document h (fun _ _ => trivial) (Reached.start k)
    ((Reached.start k).tracks rfl) n hn
  rwa [Tracks, ← colonFollows_natCast (d.text.take n).length] at this

/-- The segments of containers, the innermost first, are the path backwards. -/
theorem reverse_flatMap_segments (levels : List Level) :
    (levels.flatMap Level.segments).reverse = pathOf levels := by
  have : List.reverse ∘ Level.segments = Level.segments := by
    funext level
    match level with
    | .array => rfl
    | .object none => rfl
    | .object (some _) => rfl
  rw [List.reverse_flatMap, this, pathOf]

/-- The path of keys is that of the containers that the walk has. -/
theorem keyPath_of_fits {text : List Char} {lookahead : Int} {levels : List Level}
    (h : Fits levels (Walk.ofText text lookahead)) :
    keyPath text lookahead false = pathOf levels := by
  simp only [keyPath, Bool.false_eq_true, if_false]
  rw [h.path, reverse_flatMap_segments]

/-- **At every cut the path of keys is the path of the place**: the placeholder of each open array
and the key of the current member of each open object, from its colon to the comma after it. -/
theorem keyPath_at_cut {d : Document} {lookahead : Int} (hpos : 1 ≤ lookahead)
    (h : ∀ l ∈ d.labels, l.key.text ≠ [] ∧ (l.mid.chars.length : Int) < lookahead) :
    ∀ n ≤ d.text.length, keyPath (d.text.take n) lookahead false = (d.placeAt n).path := by
  intro n hn
  obtain ⟨k, rfl⟩ := Int.eq_ofNat_of_zero_le (by omega : 0 ≤ lookahead)
  have hlabels : ∀ l ∈ d.labels, l.key.text ≠ [] ∧ l.mid.chars.length < k := by
    intro l hl
    obtain ⟨hkey, hmid⟩ := h l hl
    exact ⟨hkey, by omega⟩
  exact keyPath_of_fits (walk_at_cut hlabels n hn)

/-- In `{ "\u0061\n" :[1 , {"k": "v"}] }` the `v` lies under the key of two characters, an element
and `k`. -/
theorem keyPath_at_cut_sample :
    (1 : Int) ≤ 3
      ∧ (∀ l ∈ Document.sample.labels,
          l.key.text ≠ [] ∧ (l.mid.chars.length : Int) < 3)
      ∧ 24 ≤ Document.sample.text.length
      ∧ keyPath (Document.sample.text.take 24) 3 false = ["a\n", "0", "k"] := by
  have hl : ∀ l ∈ Document.sample.labels, l.key.text ≠ [] ∧ (l.mid.chars.length : Int) < 3 := by
    decide
  refine ⟨by decide, hl, by decide, ?_⟩
  rw [keyPath_at_cut (by decide) hl 24 (by decide)]
  decide

end SchemaAssist.Cursor
