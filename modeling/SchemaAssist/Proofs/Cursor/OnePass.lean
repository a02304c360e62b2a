/-
# The walk without looking ahead

When the walk for the path of keys closes a literal, it looks ahead for the colon that makes the
literal a key.  So the walk over a text that goes on is not the walk over its beginning and some
steps more.  `OnePass` is a walk that is: each step knows one character and nothing else.  It keeps
the literal that may be a key yet, with how much of its window is left, and takes it when the colon
comes.

Between the closing quote and the colon the two differ, since the walk that looks ahead has the key
on its path already and awaits no other.  What it has there is known from the other one and the rest
of the text (`OnePass.resolved`), and each character keeps it so (`OnePass.resolved_step`).  At the
end of the text nothing is left to look at, and the two agree (`OnePass.walk_ofText`).

How large the window is matters only where blanks before a colon fill it (`Walk.ofText_congr`).
-/
import SchemaAssist.Proofs.Cursor.KeyPath

namespace SchemaAssist.Cursor

open SchemaAssist.Text

/-! ## 1. The walk of single characters -/

/-- A literal that is a key if a colon comes. -/
structure Candidate where
  key : String
  /-- How many characters of the window after its closing quote are left. -/
  left : Nat
  deriving DecidableEq, Repr

namespace Walk

/-- A character, no literal being taken for a key. -/
def advance (w : Walk) (c : Char) : Walk :=
  w.step (fun _ => false) c []

/-- A key is awaited, in an object. -/
def AwaitsKey (w : Walk) : Prop :=
  w.expectingKey = true ∧ w.frames.head?.map Frame.kind = some .object

/-- A character closes a literal that may be a key. -/
def ClosesKey (w : Walk) (c : Char) : Prop :=
  w.quote = .inside ∧ c = '"' ∧ w.source ≠ [] ∧ w.AwaitsKey

instance (w : Walk) : Decidable w.AwaitsKey := inferInstanceAs (Decidable (_ ∧ _))

instance (w : Walk) (c : Char) : Decidable (w.ClosesKey c) := inferInstanceAs (Decidable (_ ∧ _))

end Walk

/-- How far a text has been read without looking ahead. -/
structure OnePass where
  walk : Walk := {}
  /-- The literal that was closed last, as long as it may be a key. -/
  candidate : Option Candidate := none
  deriving DecidableEq, Repr

namespace OnePass

/-- What becomes of the candidate when a character comes: a colon makes it a key, a blank takes one
character of its window, and anything else ends it, as does the end of its window. -/
def settle (s : OnePass) (c : Char) : OnePass :=
  match s.candidate with
  | none => s
  | some ⟨key, left⟩ =>
    if c = ':' then { walk := s.walk.pushKey key, candidate := none }
    else if isBlank c = true ∧ 1 < left then { s with candidate := some ⟨key, left - 1⟩ }
    else { s with candidate := none }

/-- One character more, for windows of a given size. -/
def step (window : Nat) (s : OnePass) (c : Char) : OnePass :=
  let settled := s.settle c
  { walk := settled.walk.advance c
    candidate :=
      if settled.walk.ClosesKey c then some ⟨decodeKey settled.walk.source.reverse, window⟩
      else settled.candidate }

/-- The walk of single characters over a text. -/
def ofText (window : Nat) (text : List Char) : OnePass :=
  text.foldl (step window) {}

end OnePass

/-! ## 2. One step of the walk that looks ahead -/

namespace Walk

variable {isKey : List Char → Bool} {w : Walk} {c : Char}

/-- Where no key is awaited, none is taken. -/
theorem pushKey_of_not_awaitsKey (h : ¬ w.AwaitsKey) (key : String) : w.pushKey key = w := by
  unfold pushKey
  split
  · rename_i hexpecting hframes
    exact absurd ⟨hexpecting, by simp [hframes]⟩ h
  · rfl

/-- It does not matter whether a literal is left before its key is taken or after. -/
theorem pushKey_quote (w : Walk) (q : Quote) (key : String) :
    { w.pushKey key with quote := q } = { w with quote := q }.pushKey key := by
  unfold pushKey
  split <;> simp_all

/-- Where no literal is closed, there is no looking ahead. -/
theorem step_of_open (h : ¬ (w.quote = .inside ∧ c = '"')) (rest : List Char) :
    w.step isKey c rest = w.advance c := by
  simp only [advance, step, inside, if_neg h]

theorem advance_closing (h : w.quote = .inside) :
    w.advance '"' = { w with quote := .outside } := by
  simp [advance, step, inside, h, Quote.step]

/-- A literal that is closed is taken for a key if it is not empty and the text goes on so. -/
theorem step_closing (h : w.quote = .inside) (rest : List Char) :
    w.step isKey '"' rest
      = if w.source ≠ [] ∧ isKey rest = true then
          (w.advance '"').pushKey (decodeKey w.source.reverse)
        else w.advance '"' := by
  rw [advance_closing h, ← pushKey_quote]
  by_cases hsource : w.source = []
  · simp [step, inside, h, Quote.step, hsource]
  · cases hkey : isKey rest <;> simp [step, inside, h, Quote.step, hsource, hkey]

/-- Looking ahead matters only where a literal is closed that may be a key. -/
theorem step_eq (isKey : List Char → Bool) (w : Walk) (c : Char) (rest : List Char) :
    w.step isKey c rest
      = if w.ClosesKey c ∧ isKey rest = true then
          (w.advance c).pushKey (decodeKey w.source.reverse)
        else w.advance c := by
  by_cases hclosing : w.quote = .inside ∧ c = '"'
  · obtain ⟨hquote, rfl⟩ := hclosing
    rw [step_closing hquote]
    by_cases hawaits : w.AwaitsKey
    · simp [ClosesKey, hquote, hawaits]
    · have hawaits' : ¬ (w.advance '"').AwaitsKey := by
        rw [advance_closing hquote]
        exact hawaits
      rw [pushKey_of_not_awaitsKey hawaits', ite_self, ite_self]
  · rw [step_of_open hclosing, if_neg]
    rintro ⟨⟨hquote, hc, -⟩, -⟩
    exact hclosing ⟨hquote, hc⟩

theorem quote_pushKey (w : Walk) (key : String) : (w.pushKey key).quote = w.quote := by
  unfold pushKey
  split <;> rfl

/-- Outside literals a character without a meaning there changes nothing. -/
theorem advance_of_isNeutral (hw : w.quote = .outside) (hc : IsNeutral c) : w.advance c = w := by
  have hrun : run (fun _ => false) w [c]
      = run (fun _ => false) { w.mark c with quote := .outside } [] :=
    run_mark hw hc.ne_quote []
  rw [mark_of_isNeutral hc, ← hw] at hrun
  exact hrun

end Walk

/-! ## 3. Both walks side by side -/

/-- What a window sees when it is moved on by one character. -/
theorem colonWithin_cons (k : Nat) (c : Char) (cs : List Char) :
    colonWithin (k + 1) (c :: cs) = if isBlank c = true then colonWithin k cs else c == ':' := by
  rw [colonWithin, List.take_succ_cons, startsWithColon, List.dropWhile_cons]
  split
  · rfl
  · rfl

namespace OnePass

/-- What the walk that looks ahead has where this one has come to and the rest of the text is known:
it has taken the candidate already if the colon comes in time. -/
def resolved (s : OnePass) (rest : List Char) : Walk :=
  match s.candidate with
  | none => s.walk
  | some ⟨key, left⟩ => if colonWithin left rest = true then s.walk.pushKey key else s.walk

/-- A candidate is closed, and some of its window is left. -/
def Sound (s : OnePass) : Prop :=
  ∀ candidate, s.candidate = some candidate → s.walk.quote = .outside ∧ 0 < candidate.left

variable {s : OnePass} {window : Nat}

theorem resolved_none (w : Walk) (rest : List Char) : resolved ⟨w, none⟩ rest = w := rfl

theorem resolved_some (w : Walk) (key : String) (left : Nat) (rest : List Char) :
    resolved ⟨w, some ⟨key, left⟩⟩ rest
      = if colonWithin left rest = true then w.pushKey key else w := rfl

section Candidate

variable {w : Walk} (key : String) (left : Nat) {c : Char}

theorem settle_colon : settle ⟨w, some ⟨key, left⟩⟩ ':' = ⟨w.pushKey key, none⟩ := rfl

theorem settle_blank (hc : isBlank c = true) :
    settle ⟨w, some ⟨key, left + 1⟩⟩ c = ⟨w, if 0 < left then some ⟨key, left⟩ else none⟩ := by
  have hcolon : c ≠ ':' := by
    rintro rfl
    rw [isBlank_colon] at hc
    cases hc
  by_cases hleft : 0 < left <;> simp [settle, hcolon, hc, hleft]

theorem settle_other (hcolon : c ≠ ':') (hc : isBlank c = false) :
    settle ⟨w, some ⟨key, left⟩⟩ c = ⟨w, none⟩ := by
  simp [settle, hcolon, hc]

/-- A window that is used up sees nothing. -/
theorem resolved_left (rest : List Char) :
    resolved ⟨w, if 0 < left then some ⟨key, left⟩ else none⟩ rest
      = resolved ⟨w, some ⟨key, left⟩⟩ rest := by
  cases left with
  | zero => rfl
  | succ left => rw [if_pos (Nat.succ_pos left)]

/-- Outside literals no literal is closed. -/
theorem step_of_outside {candidate : Option Candidate} (hs : s.settle c = ⟨w, candidate⟩)
    (hw : w.quote = .outside) : s.step window c = ⟨w.advance c, candidate⟩ := by
  have hcloses : ¬ w.ClosesKey c := by
    rintro ⟨hinside, -⟩
    rw [hw] at hinside
    cases hinside
  simp only [step, hs, if_neg hcloses]

/-- A candidate becomes a key, loses a character of its window or is forgotten, just as the walk
that looks ahead has taken it already or never takes it. -/
theorem resolved_step_of_candidate (hw : w.quote = .outside) (isKey : List Char → Bool)
    (cs : List Char) :
    (resolved ⟨w, some ⟨key, left + 1⟩⟩ (c :: cs)).step isKey c cs
      = (step window ⟨w, some ⟨key, left + 1⟩⟩ c).resolved cs := by
  have hpushed : (w.pushKey key).quote = .outside := by rw [Walk.quote_pushKey, hw]
  have hopen : ∀ {w' : Walk}, w'.quote = .outside → w'.step isKey c cs = w'.advance c := by
    intro w' hw'
    apply Walk.step_of_open
    simp [hw']
  rw [resolved_some, colonWithin_cons]
  by_cases hcolon : c = ':'
  · subst hcolon
    rw [step_of_outside (settle_colon key _) hpushed, resolved_none, isBlank_colon]
    exact hopen hpushed
  cases hblank : isBlank c with
  | true =>
    -- Neither walk moves on a blank.
    have hneutral : IsNeutral c := isNeutral_of_isBlank hblank
    rw [step_of_outside (settle_blank key left hblank) hw, Walk.advance_of_isNeutral hw hneutral,
      resolved_left, resolved_some, if_pos rfl]
    split
    · rw [hopen hpushed, Walk.advance_of_isNeutral hpushed hneutral]
    · rw [hopen hw, Walk.advance_of_isNeutral hw hneutral]
  | false =>
    rw [step_of_outside (settle_other key _ hcolon hblank) hw, resolved_none]
    simp [hcolon, hopen hw]

end Candidate

/-- **Each character leads from what the walk that looks ahead has to what it has next.** -/
theorem resolved_step (h : s.Sound) (c : Char) (cs : List Char) :
    (s.resolved (c :: cs)).step (colonWithin window) c cs = (s.step window c).resolved cs := by
  obtain ⟨w, candidate⟩ := s
  cases candidate with
  | none =>
    -- The literal that is closed here becomes the candidate, and the rest of the text decides.
    rw [resolved_none, Walk.step_eq]
    by_cases hcloses : w.ClosesKey c
    · simp [step, settle, resolved, hcloses]
    · simp [step, settle, resolved, hcloses]
  | some candidate =>
    obtain ⟨key, left⟩ := candidate
    obtain ⟨hw, hleft⟩ := h _ rfl
    obtain ⟨n, rfl⟩ := Nat.exists_eq_succ_of_ne_zero (Nat.ne_of_gt hleft)
    exact resolved_step_of_candidate key n hw _ cs

/-- Only a blank leaves a candidate that was there. -/
theorem Sound.settle (h : s.Sound) {c : Char} {candidate : Candidate}
    (hs : (s.settle c).candidate = some candidate) :
    isBlank c = true ∧ (s.settle c).walk = s.walk ∧ s.walk.quote = .outside
      ∧ 0 < candidate.left := by
  obtain ⟨w, _ | ⟨key, left⟩⟩ := s
  · cases hs
  obtain ⟨hw, hleft⟩ := h _ rfl
  obtain ⟨n, rfl⟩ := Nat.exists_eq_succ_of_ne_zero (Nat.ne_of_gt hleft)
  by_cases hcolon : c = ':'
  · rw [hcolon, settle_colon] at hs
    cases hs
  cases hblank : isBlank c with
  | true =>
    rw [settle_blank key n hblank] at hs ⊢
    by_cases hn : 0 < n
    · rw [if_pos hn] at hs
      obtain rfl := Option.some.inj hs
      exact ⟨rfl, rfl, hw, hn⟩
    · rw [if_neg hn] at hs
      cases hs
  | false =>
    rw [settle_other key _ hcolon hblank] at hs
    cases hs

theorem Sound.step (h : s.Sound) (hwindow : 0 < window) (c : Char) : (s.step window c).Sound := by
  intro candidate hcandidate
  simp only [OnePass.step] at hcandidate ⊢
  split at hcandidate
  · rename_i hcloses
    obtain ⟨hquote, rfl, -⟩ := hcloses
    obtain rfl := Option.some.inj hcandidate
    exact ⟨by rw [Walk.advance_closing hquote], hwindow⟩
  · obtain ⟨hblank, hwalk, hw, hleft⟩ := h.settle hcandidate
    rw [hwalk, Walk.advance_of_isNeutral hw (isNeutral_of_isBlank hblank)]
    exact ⟨hw, hleft⟩

/-- At the end of the text nothing is left to look at. -/
theorem resolved_nil (s : OnePass) : s.resolved [] = s.walk := by
  obtain ⟨w, _ | ⟨key, left⟩⟩ := s
  · rfl
  · have hnothing : colonWithin left [] = false := by simp [colonWithin, startsWithColon]
    rw [resolved_some, hnothing]
    rfl

/-- **The walk that looks ahead ends where the walk of single characters does.** -/
theorem run_resolved (hwindow : 0 < window) : ∀ (text : List Char) {s : OnePass}, s.Sound →
    Walk.run (colonWithin window) (s.resolved text) text = (text.foldl (step window) s).walk
  | [], s, _ => s.resolved_nil
  | c :: cs, s, h => by
    rw [Walk.run, resolved_step h, List.foldl_cons]
    exact run_resolved hwindow cs (h.step hwindow c)

theorem walk_ofText {lookahead : Int} (hpos : 1 ≤ lookahead) (text : List Char) :
    (ofText lookahead.toNat text).walk = Walk.ofText text lookahead := by
  obtain ⟨window, rfl⟩ := Int.eq_ofNat_of_zero_le (by omega : 0 ≤ lookahead)
  have hsound : Sound {} := by
    intro candidate hcandidate
    cases hcandidate
  have hrun := run_resolved (by omega : 0 < window) text hsound
  rw [Walk.ofText, colonFollows_natCast, Int.toNat_natCast]
  exact hrun.symm

theorem ofText_concat (window : Nat) (text : List Char) (c : Char) :
    ofText window (text ++ [c]) = (ofText window text).step window c := by
  rw [ofText, List.foldl_append]
  rfl

end OnePass

/-! ## 4. How far ahead it looks -/

/-- A colon is seen if there are only blanks before it and fewer than the window holds. -/
theorem colonWithin_iff {k : Nat} {rest : List Char} : colonWithin k rest = true
    ↔ ∃ gap after, rest = gap ++ ':' :: after ∧ (∀ c ∈ gap, isBlank c = true) ∧ gap.length < k := by
  constructor
  · intro h
    induction k generalizing rest with
    | zero => cases h
    | succ k ih =>
      cases rest with
      | nil => cases h
      | cons c cs =>
        rw [colonWithin_cons] at h
        split at h
        · rename_i hblank
          obtain ⟨gap, after, rfl, hgap, hlength⟩ := ih h
          exact ⟨c :: gap, after, rfl, List.forall_mem_cons.mpr ⟨hblank, hgap⟩,
            Nat.succ_lt_succ hlength⟩
        · obtain rfl : c = ':' := by simpa using h
          exact ⟨[], cs, rfl, by simp, Nat.succ_pos k⟩
  · rintro ⟨gap, after, rfl, hgap, hlength⟩
    exact colonWithin_of_colon hgap hlength

/-- Wherever blanks stand between a closing quote and a colon, they are fewer than `lookahead`. -/
def GapsWithin (lookahead : Int) (text : List Char) : Prop :=
  ∀ before gap after, text = before ++ '"' :: (gap ++ ':' :: after) →
    Quote.outside.after before = .inside → (∀ c ∈ gap, isBlank c = true) → gap.length < lookahead

/-- A text has only gaps that are smaller than the number of its blanks and one. -/
theorem gapsWithin_of_countP {lookahead : Int} {text : List Char}
    (h : text.countP isBlank < lookahead) : GapsWithin lookahead text := by
  rintro before gap after rfl - hgap
  have hcount : gap.countP isBlank = gap.length := List.countP_eq_length.mpr hgap
  simp only [List.countP_append, List.countP_cons, hcount] at h
  omega

namespace Walk

/-- Two ways to look ahead that find the same behind every closing quote are one. -/
theorem run_congr {isKey isKey' : List Char → Bool} : ∀ {text : List Char} {w : Walk},
    (∀ before rest, text = before ++ '"' :: rest → w.quote.after before = .inside →
      isKey rest = isKey' rest) → run isKey w text = run isKey' w text
  | [], _, _ => rfl
  | c :: cs, w, h => by
    have hstep : w.step isKey c cs = w.step isKey' c cs := by
      by_cases hclosing : w.quote = .inside ∧ c = '"'
      · obtain ⟨hquote, rfl⟩ := hclosing
        rw [step_eq, step_eq isKey', h [] cs rfl hquote]
      · rw [step_of_open hclosing, step_of_open hclosing]
    rw [run, run, hstep]
    apply run_congr
    intro before rest hrest hafter
    exact h (c :: before) rest (by rw [hrest, List.cons_append]) hafter

/-- **The window does not matter if it is larger than every gap before a colon.** -/
theorem ofText_congr {text : List Char} {lookahead lookahead' : Int} (hpos : 1 ≤ lookahead)
    (hpos' : 1 ≤ lookahead') (h : GapsWithin lookahead text) (h' : GapsWithin lookahead' text) :
    ofText text lookahead = ofText text lookahead' := by
  obtain ⟨k, rfl⟩ := Int.eq_ofNat_of_zero_le (by omega : 0 ≤ lookahead)
  obtain ⟨k', rfl⟩ := Int.eq_ofNat_of_zero_le (by omega : 0 ≤ lookahead')
  rw [ofText, ofText, colonFollows_natCast, colonFollows_natCast]
  apply run_congr
  intro before rest hrest hafter
  rw [Bool.eq_iff_iff, colonWithin_iff, colonWithin_iff]
  constructor
  · rintro ⟨gap, after, rfl, hgap, -⟩
    exact ⟨gap, after, rfl, hgap, by exact_mod_cast h' before gap after hrest hafter hgap⟩
  · rintro ⟨gap, after, rfl, hgap, -⟩
    exact ⟨gap, after, rfl, hgap, by exact_mod_cast h before gap after hrest hafter hgap⟩

end Walk

/-- **The walk is one pass over single characters.** -/
theorem walk_in_one_pass {lookahead : Int} (hpos : 1 ≤ lookahead) (text : List Char) :
    let machine := OnePass.ofText lookahead.toNat text
    let walk := Walk.ofText text lookahead
    (walk.path = machine.walk.path ∧ walk.frames = machine.walk.frames)
      ∧ (∀ c, let next := machine.step lookahead.toNat c
          (Walk.ofText (text ++ [c]) lookahead).path = next.walk.path
            ∧ (Walk.ofText (text ++ [c]) lookahead).frames = next.walk.frames)
      ∧ ∀ lookahead', 1 ≤ lookahead' → GapsWithin lookahead text → GapsWithin lookahead' text →
          walk.path = (Walk.ofText text lookahead').path
            ∧ walk.frames = (Walk.ofText text lookahead').frames := by
  intro machine walk
  refine ⟨?_, ?_, ?_⟩
  · rw [OnePass.walk_ofText hpos]
    exact ⟨rfl, rfl⟩
  · intro c next
    have hnext : next = OnePass.ofText lookahead.toNat (text ++ [c]) :=
      (OnePass.ofText_concat lookahead.toNat text c).symm
    rw [hnext, OnePass.walk_ofText hpos]
    exact ⟨rfl, rfl⟩
  · intro lookahead' hpos' h h'
    have hwalk : walk = Walk.ofText text lookahead' := Walk.ofText_congr hpos hpos' h h'
    rw [hwalk]
    exact ⟨rfl, rfl⟩

/-- In `{"a" \n:[{"b"` the literal `b` waits for its colon; windows of three and of ten characters
both reach the colon of `a`. -/
theorem walk_in_one_pass_waiting :
    let text := "\x7b\"a\" \n:[\x7b\"b\"".toList
    (1 : Int) ≤ 3 ∧ (1 : Int) ≤ 10 ∧ GapsWithin 3 text ∧ GapsWithin 10 text
      ∧ (Walk.ofText text 3).path = (OnePass.ofText 3 text).walk.path
      ∧ (OnePass.ofText 3 text).candidate = some ⟨"b", 3⟩
      ∧ (Walk.ofText (text ++ [':']) 3).path = ((OnePass.ofText 3 text).step 3 ':').walk.path
      ∧ (Walk.ofText text 3).path = (Walk.ofText text 10).path := by
  intro text
  have hgaps : GapsWithin 3 text := gapsWithin_of_countP (by decide)
  have hgaps' : GapsWithin 10 text := gapsWithin_of_countP (by decide)
  have hpos : (1 : Int) ≤ 3 := by decide
  have hpos' : (1 : Int) ≤ 10 := by decide
  obtain ⟨⟨hpath, -⟩, hnext, hsame⟩ := walk_in_one_pass hpos text
  obtain ⟨hpath', -⟩ := hnext ':'
  obtain ⟨hequal, -⟩ := hsame 10 hpos' hgaps hgaps'
  exact ⟨hpos, hpos', hgaps, hgaps', hpath, by decide, hpath', hequal⟩

/-- A window of two characters does not reach a colon behind two blanks. -/
example : keyPath "\x7b\"k\"  :".toList 2 false = []
    ∧ keyPath "\x7b\"k\"  :".toList 3 false = ["k"] := by decide

end SchemaAssist.Cursor
