/-
# A completed value leaves the path alone

Between the brace or bracket that opens a container and the one that closes it the walk moves: keys
go on the path and off again, containers are opened.  When the value is complete the walk has the
path and the containers that it had before.

This holds of every value, also where the walk does not take the keys for keys, because they are
empty or their colons lie beyond the window.  Then a name is still awaited when the value of the
member comes, and what keeps a string there from becoming the key is that no colon follows it.  So
a value is left as it was found by a walk that awaits no name, and otherwise if no colon comes next
(`Crosses`).

* `Outline.isCrossed`: every value is crossed;
* `Reached.value`: from where a value is awaited to where it has ended;
* `Outline.returned_ofText`: behind any text that leaves no literal open, and what follows for the
  path (`keyPath_append_element`, `keyPath_append_of_isJson`).
-/
import SchemaAssist.Proofs.Cursor.KeyPath
import SchemaAssist.Proofs.Cursor.Outline
import SchemaAssist.Proofs.Json.Writing

namespace SchemaAssist.Cursor

open SchemaAssist.Json SchemaAssist.Text

variable {k : Nat} {w w' : Walk}

/-! ## 1. Crossing a value -/

/-- The walk has come back to the path and the containers that it had. -/
structure Returned (w w' : Walk) : Prop where
  path : w'.path = w.path
  frames : w'.frames = w.frames
  quote : w'.quote = .outside
  /-- No name is awaited where none was. -/
  expecting : w.expectingKey = false → w'.expectingKey = false

theorem Returned.trans {w'' : Walk} (h : Returned w w') (h' : Returned w' w'') :
    Returned w w'' :=
  ⟨h'.path.trans h.path, h'.frames.trans h.frames, h'.quote,
    fun hw => h'.expecting (h.expecting hw)⟩

/-- Reading a text takes the walk from `w` to `w'`, if no colon comes next where a name is
awaited. -/
def Crosses (k : Nat) (w : Walk) (cs : List Char) (w' : Walk) : Prop :=
  ∀ rest, (w.expectingKey = true → startsWithColon rest = false) →
    Walk.run (colonWithin k) w (cs ++ rest) = Walk.run (colonWithin k) w' rest

/-- Where no name is awaited, it does not matter what comes next. -/
theorem Crosses.run {cs : List Char} (h : Crosses k w cs w') (hw : w.expectingKey = false)
    (rest : List Char) :
    Walk.run (colonWithin k) w (cs ++ rest) = Walk.run (colonWithin k) w' rest := by
  refine h rest ?_
  rw [hw]
  intro hfalse
  cases hfalse

/-- The window does not matter where no colon comes next. -/
theorem colonWithin_of_not_startsWithColon {rest : List Char}
    (h : startsWithColon rest = false) : colonWithin k rest = false := by
  rw [startsWithColon, ← List.take_append_drop k rest, List.dropWhile_append] at h
  rw [colonWithin, startsWithColon]
  cases hd : (rest.take k).dropWhile isBlank with
  | nil => rfl
  | cons c cs => simpa [hd] using h

/-- Whether the colon of a member is found depends on the blanks before it only. -/
theorem colonWithin_blanks_colon {cs : List Char} (h : ∀ c ∈ cs, isBlank c = true)
    (rest : List Char) : colonWithin k (cs ++ ':' :: rest) = decide (cs.length < k) := by
  by_cases hk : cs.length < k
  · rw [colonWithin_of_colon h hk, decide_eq_true hk]
  · have htake : (cs ++ ':' :: rest).take k = cs.take k := by
      rw [List.take_append_of_le_length (by omega)]
    rw [colonWithin, htake, ← colonWithin, colonWithin_of_blank h, decide_eq_false hk]

/-! ## 2. Inside a container -/

/-- The walk is inside an array. -/
structure InArray (w : Walk) : Prop where
  own : ∃ n frames, w.frames = ⟨.array, n⟩ :: frames
  expecting : w.expectingKey = false
  quote : w.quote = .outside

namespace InArray

theorem opened (w : Walk) : InArray { w.mark '[' with quote := .outside } :=
  ⟨⟨1, w.frames, rfl⟩, rfl, rfl⟩

theorem returned (h : InArray w) (hw : Returned w w') : InArray w' := by
  obtain ⟨n, frames, hframes⟩ := h.own
  exact ⟨⟨n, frames, by rw [hw.frames, hframes]⟩, hw.expecting h.expecting, hw.quote⟩

/-- A comma between elements changes nothing. -/
theorem comma (h : InArray w) : { w.mark ',' with quote := .outside } = w := by
  obtain ⟨n, frames, hframes⟩ := h.own
  have hmark : w.mark ',' = w := by simp [Walk.mark, Walk.endMember, hframes]
  rw [hmark, ← h.quote]

end InArray

/-- The closing bracket leaves what was there before the array. -/
theorem Returned.bracket (h : Returned { w.mark '[' with quote := .outside } w') :
    Returned w { w'.mark ']' with quote := .outside } := by
  have hframes : w'.frames = ⟨.array, 1⟩ :: w.frames := h.frames
  have hpath : w'.path = arrayPlaceholder :: w.path := h.path
  refine ⟨?_, ?_, rfl, ?_⟩ <;> simp [Walk.mark, Walk.close, hframes, hpath]

/-- The walk is inside an object that was opened with this path and these containers. -/
structure InObject (path : List String) (frames : List Frame) (w : Walk) : Prop where
  /-- The innermost container is the object, and only its key came on the path. -/
  own : ∃ n, w.frames = ⟨.object, n⟩ :: frames ∧ w.path.drop n = path
  quote : w.quote = .outside

namespace InObject

variable {path : List String} {frames : List Frame}

theorem opened (w : Walk) : InObject w.path w.frames { w.mark '{' with quote := .outside } :=
  ⟨⟨0, rfl, rfl⟩, rfl⟩

theorem returned (h : InObject path frames w) (hw : Returned w w') : InObject path frames w' := by
  obtain ⟨n, hframes, hpath⟩ := h.own
  exact ⟨⟨n, by rw [hw.frames, hframes], by rw [hw.path, hpath]⟩, hw.quote⟩

/-- A literal puts a key in place of the one before, or changes nothing. -/
theorem closed (h : InObject path frames w) (source : List Char) (key : Bool) :
    InObject path frames (w.closed source key) := by
  obtain ⟨n, hframes, hpath⟩ := h.own
  refine ⟨?_, rfl⟩
  unfold Walk.closed
  split
  · cases hexpecting : w.expectingKey with
    | true => exact ⟨1, by simp [Walk.pushKey, Walk.opened, hexpecting, hframes, hpath]⟩
    | false => exact ⟨n, by simp [Walk.pushKey, Walk.opened, hexpecting, hframes, hpath]⟩
  · exact ⟨n, hframes, hpath⟩

/-- A comma takes the key off the path. -/
theorem comma (h : InObject path frames w) :
    InObject path frames { w.mark ',' with quote := .outside } := by
  obtain ⟨n, hframes, hpath⟩ := h.own
  exact ⟨⟨0, by simp [Walk.mark, Walk.endMember, hframes, hpath]⟩, rfl⟩

/-- The closing brace leaves what was there before the object. -/
theorem brace (h : InObject w.path w.frames w') :
    Returned w { w'.mark '}' with quote := .outside } := by
  obtain ⟨n, hframes, hpath⟩ := h.own
  refine ⟨?_, ?_, rfl, ?_⟩ <;> simp [Walk.mark, Walk.close, hframes, hpath]

end InObject

/-! ## 3. Pieces of a value -/

theorem Walk.run_blanks (hw : w.quote = .outside) {cs : List Char}
    (h : ∀ c ∈ cs, isJsonBlank c = true) (rest : List Char) :
    Walk.run (colonWithin k) w (cs ++ rest) = Walk.run (colonWithin k) w rest :=
  Walk.run_neutral hw rest fun c hc => isNeutral_of_isJsonBlank (h c hc)

/-- The name of a member and its colon. -/
theorem Walk.run_name (hw : w.quote = .outside) {source mid : List Char} (hsource : Body source)
    (hmid : ∀ c ∈ mid, isJsonBlank c = true) (rest : List Char) :
    Walk.run (colonWithin k) w ('"' :: (source ++ '"' :: (mid ++ ':' :: rest)))
      = Walk.run (colonWithin k) (w.closed source (decide (mid.length < k))) rest := by
  have hcolon : IsNeutral ':' := by decide
  rw [Walk.run_closed hw hsource, colonWithin_blanks_colon (forall_isBlank hmid),
    Walk.run_blanks rfl hmid, Walk.run_mark rfl hcolon.ne_quote, Walk.mark_of_isNeutral hcolon]
  rfl

/-- A string that is a value. -/
theorem exists_crosses_literal (hw : w.quote = .outside) {source : List Char}
    (hsource : Body source) :
    ∃ w', Returned w w' ∧ Crosses k w ('"' :: (source ++ ['"'])) w' := by
  refine ⟨{ w.opened source with quote := .outside }, ⟨rfl, rfl, rfl, fun h => h⟩, ?_⟩
  intro rest hrest
  -- It is no key: either none is awaited, or no colon comes next.
  have hclosed : w.closed source (colonWithin k rest)
      = { w.opened source with quote := .outside } := by
    cases hexpecting : w.expectingKey with
    | true => simp [Walk.closed, colonWithin_of_not_startsWithColon (hrest hexpecting)]
    | false => exact Walk.closed_of_not_expecting hexpecting source _
  rw [← hclosed, ← Walk.run_closed hw hsource]
  simp

section Containers

variable {inner : List Char}

/-- Brackets around what the walk passes. -/
theorem exists_crosses_brackets (hw : w.quote = .outside)
    (hinner : Returned { w.mark '[' with quote := .outside } w')
    (hrun : ∀ rest, Walk.run (colonWithin k) { w.mark '[' with quote := .outside } (inner ++ rest)
      = Walk.run (colonWithin k) w' rest) :
    ∃ w', Returned w w' ∧ Crosses k w ('[' :: (inner ++ [']'])) w' := by
  refine ⟨_, hinner.bracket, ?_⟩
  intro rest _
  rw [List.cons_append, Walk.run_mark hw (by decide), List.append_assoc, hrun,
    List.singleton_append, Walk.run_mark hinner.quote (by decide)]

/-- Braces around what the walk passes unless a colon comes next. -/
theorem exists_crosses_braces (hw : w.quote = .outside) (hinner : InObject w.path w.frames w')
    (hrun : ∀ rest, startsWithColon rest = false →
      Walk.run (colonWithin k) { w.mark '{' with quote := .outside } (inner ++ rest)
        = Walk.run (colonWithin k) w' rest) :
    ∃ w', Returned w w' ∧ Crosses k w ('{' :: (inner ++ ['}'])) w' := by
  refine ⟨_, hinner.brace, ?_⟩
  intro rest _
  have hbrace : startsWithColon ('}' :: rest) = false := rfl
  rw [List.cons_append, Walk.run_mark hw (by decide), List.append_assoc, List.singleton_append,
    hrun _ hbrace, Walk.run_mark hinner.quote (by decide)]

end Containers

/-! ## 4. Every value is crossed -/

/-- The walk comes back from what a symbol derives: from a value to where it was, from the items of
an array and the members of an object to the same container. -/
def IsCrossed (k : Nat) : Symbol → List Char → Prop
  | .value, cs => ∀ w, w.quote = .outside → ∃ w', Returned w w' ∧ Crosses k w cs w'
  | .element, cs => ∀ w, w.quote = .outside → ∃ w', Returned w w' ∧ Crosses k w cs w'
  | .items, cs => ∀ w, InArray w → ∃ w', Returned w w' ∧ ∀ rest,
      Walk.run (colonWithin k) w (cs ++ rest) = Walk.run (colonWithin k) w' rest
  | .member, cs => ∀ path frames w, InObject path frames w → ∃ w', InObject path frames w' ∧
      ∀ rest, startsWithColon rest = false →
        Walk.run (colonWithin k) w (cs ++ rest) = Walk.run (colonWithin k) w' rest
  | .members, cs => ∀ path frames w, InObject path frames w → ∃ w', InObject path frames w' ∧
      ∀ rest, startsWithColon rest = false →
        Walk.run (colonWithin k) w (cs ++ rest) = Walk.run (colonWithin k) w' rest

/-- **Whatever has an outline is crossed.** -/
theorem Outline.isCrossed {symbol : Symbol} {text : List Char} (h : Outline symbol text) :
    IsCrossed k symbol text := by
  induction h with
  | word _ hword =>
    intro w hw
    refine ⟨w, ⟨rfl, rfl, hw, fun h => h⟩, ?_⟩
    intro rest _
    exact Walk.run_neutral hw rest fun c hc => isNeutral_of_isBareChar (hword c hc)
  | literal hsource => exact fun w hw => exists_crosses_literal hw hsource
  | emptyArray hgap =>
    intro w hw
    exact exists_crosses_brackets hw ⟨rfl, rfl, rfl, fun h => h⟩
      fun rest => Walk.run_blanks rfl hgap rest
  | array _ ih =>
    intro w hw
    obtain ⟨w', hw', hrun⟩ := ih _ (InArray.opened w)
    exact exists_crosses_brackets hw hw' hrun
  | emptyObject hgap =>
    intro w hw
    exact exists_crosses_braces hw (InObject.opened w)
      fun rest _ => Walk.run_blanks rfl hgap rest
  | object _ ih =>
    intro w hw
    obtain ⟨w', hw', hrun⟩ := ih _ _ _ (InObject.opened w)
    exact exists_crosses_braces hw hw' hrun
  | element hbefore _ hafter ih =>
    intro w hw
    obtain ⟨w', hw', hvalue⟩ := ih w hw
    refine ⟨w', hw', ?_⟩
    intro rest hrest
    rw [List.append_assoc, List.append_assoc, Walk.run_blanks hw hbefore, hvalue,
      Walk.run_blanks hw'.quote hafter]
    intro hexpecting
    rw [startsWithColon_blanks hafter, hrest hexpecting]
  | lastItem _ ih =>
    intro w hw
    obtain ⟨w', hw', helement⟩ := ih w hw.quote
    exact ⟨w', hw', helement.run hw.expecting⟩
  | nextItem _ _ ih ihrest =>
    intro w hw
    obtain ⟨w', hw', helement⟩ := ih w hw.quote
    have hin := hw.returned hw'
    obtain ⟨w'', hw'', hothers⟩ := ihrest w' hin
    refine ⟨w'', hw'.trans hw'', ?_⟩
    intro rest
    rw [List.append_assoc, helement.run hw.expecting, List.cons_append,
      Walk.run_mark hin.quote (by decide), hin.comma, hothers]
  | @member before source mid text hbefore hsource hmid _ ih =>
    intro path frames w hw
    have hnamed := hw.closed source (decide (mid.length < k))
    obtain ⟨w', hw', helement⟩ := ih _ hnamed.quote
    refine ⟨w', hnamed.returned hw', ?_⟩
    intro rest hrest
    have hrun := Walk.run_name (k := k) hw.quote hsource hmid (text ++ rest)
    rw [helement rest fun _ => hrest] at hrun
    rw [List.append_assoc, Walk.run_blanks hw.quote hbefore, ← hrun]
    simp
  | lastMember _ ih => exact ih
  | nextMember _ _ ih ihrest =>
    intro path frames w hw
    obtain ⟨w', hw', hmember⟩ := ih path frames w hw
    obtain ⟨w'', hw'', hothers⟩ := ihrest path frames _ hw'.comma
    refine ⟨w'', hw'', ?_⟩
    intro rest hrest
    have hcomma : ∀ cs, startsWithColon (',' :: cs) = false := fun _ => rfl
    rw [List.append_assoc, List.cons_append, hmember _ (hcomma _),
      Walk.run_mark hw'.quote (by decide), hothers rest hrest]

/-! ## 5. From where a value is awaited to where it has ended -/

/-- **A value leads from where it is awaited to where it has ended.** -/
theorem Reached.value {levels : List Level} {before text : List Char} {v : Value}
    (h : Reached k ⟨levels, .value⟩ before) (htext : Written text v) :
    Reached k ⟨levels, .done⟩ (before ++ text) := by
  obtain ⟨t, rfl, -⟩ := htext
  refine h.step ?_
  intro w hw
  obtain ⟨w', hw', ht⟩ := (Tree.outline t).isCrossed (k := k) w hw.quote
  refine ⟨w', ?_, ht.run hw.expecting⟩
  exact ⟨⟨by rw [hw'.path, hw.path], by rw [hw'.frames, hw.frames]⟩, hw'.quote,
    hw'.expecting hw.expecting⟩

/-! ## 6. Behind any text -/

/-- What does not start with a colon does not change what a search before it finds. -/
theorem colonWithin_append {v : List Char} (h : startsWithColon v = false) (rest : List Char) :
    colonWithin k (rest ++ v) = colonWithin k rest := by
  have hv : colonWithin (k - rest.length) v = false := colonWithin_of_not_startsWithColon h
  rw [colonWithin, startsWithColon] at hv ⊢
  rw [List.take_append, List.dropWhile_append, colonWithin, startsWithColon]
  cases hrest : (rest.take k).dropWhile isBlank with
  | nil => simpa using hv
  | cons c cs => rfl

/-- So the walk reads a text as it does without what follows. -/
theorem Walk.run_append {v : List Char} (h : startsWithColon v = false) (p : List Char) :
    ∀ w : Walk, Walk.run (colonWithin k) w (p ++ v)
      = Walk.run (colonWithin k) (Walk.run (colonWithin k) w p) v := by
  induction p with
  | nil => exact fun _ => rfl
  | cons c p ih =>
    intro w
    have hstep : w.step (colonWithin k) c (p ++ v) = w.step (colonWithin k) c p := by
      simp only [Walk.step, Walk.inside, colonWithin_append h]
    rw [List.cons_append, Walk.run, hstep, ih, Walk.run]

/-- At the end of a value the walk has come back to where the value began. -/
theorem Outline.returned {v : List Char} (h : Outline .element v) (hw : w.quote = .outside) :
    Returned w (Walk.run (colonWithin k) w v) := by
  obtain ⟨w', hw', hv⟩ := h.isCrossed (k := k) w hw
  have hrun := hv [] fun _ => rfl
  rw [List.append_nil] at hrun
  rw [hrun]
  exact hw'

/-- **A complete value behind any text that leaves no literal open takes the walk back to where it
was.** -/
theorem Outline.returned_ofText {p v : List Char} (hp : Quote.outside.after p = .outside)
    (hv : Outline .element v) {lookahead : Int} (hpos : 1 ≤ lookahead) :
    Returned (Walk.ofText p lookahead) (Walk.ofText (p ++ v) lookahead) := by
  obtain ⟨k, rfl⟩ := Int.eq_ofNat_of_zero_le (by omega : 0 ≤ lookahead)
  have hquote : (Walk.run (colonWithin k) {} p).quote = .outside := by
    rw [Walk.quote_run]
    exact hp
  simp only [Walk.ofText, colonFollows_natCast, Walk.run_append hv.not_startsWithColon]
  exact hv.returned hquote

/-- The path of a text is read off the path and the containers of the walk. -/
theorem Returned.keyPath_eq {p q : List Char} {lookahead : Int}
    (h : Returned (Walk.ofText p lookahead) (Walk.ofText q lookahead)) (memberPosition : Bool) :
    keyPath q lookahead memberPosition = keyPath p lookahead memberPosition := by
  simp only [keyPath, Walk.memberSegments, h.path, h.frames]

/-- **A complete value behind any text that leaves no literal open does not change the path.**  The
value may be any text with an outline; the text before it may be as malformed as one likes, whatever
containers it leaves open, and whether a name is awaited at its end or not. -/
theorem keyPath_append_element {p v : List Char} (hp : Quote.outside.after p = .outside)
    (hv : Outline .element v) {lookahead : Int} (hpos : 1 ≤ lookahead) (memberPosition : Bool) :
    keyPath (p ++ v) lookahead memberPosition = keyPath p lookahead memberPosition := by
  have hreturned := hv.returned_ofText hp hpos
  exact hreturned.keyPath_eq memberPosition

/-- A text with a brace that closes nothing, an object without a colon in an array, and at its end
a literal where a name is awaited. -/
def brokenText : List Char :=
  "\x7d\x7b\"k\": [\x7b\"k\"".toList

/-- An object whose name is one half of a surrogate pair, with its colon out of a window of two. -/
def halfNamed : List Char :=
  " \x7b\"\\ud800\"  :[]\x7d".toList

theorem outline_halfNamed : Outline .element halfNamed := by
  have hname : Body "\\ud800".toList :=
    .escape (by decide) (.digits (rfl : hexValue4? 'd' '8' '0' '0' = some 0xd800) .nil)
  have hspaces : ∀ n, ∀ c ∈ List.replicate n ' ', isJsonBlank c = true := by
    intro n c hc
    rw [List.eq_of_mem_replicate hc]
    rfl
  have hvalue : Outline .element "[]".toList :=
    .element (List.forall_mem_nil _) (.emptyArray (List.forall_mem_nil _)) (List.forall_mem_nil _)
  have hmember := Outline.member (List.forall_mem_nil _) hname (hspaces 2) hvalue
  exact .element (hspaces 1) hmember.lastMember.object (List.forall_mem_nil _)

/-- The path stays that of the array, its member and the placeholder, and is so at a member position
as well. -/
theorem keyPath_append_element_brokenText :
    Quote.outside.after brokenText = .outside
      ∧ keyPath (brokenText ++ halfNamed) 2 false = ["k", "0"]
      ∧ keyPath (brokenText ++ halfNamed) 2 true = ["k", "0"] := by
  have hp : Quote.outside.after brokenText = .outside := by decide
  refine ⟨hp, ?_, ?_⟩
  · rw [keyPath_append_element hp outline_halfNamed (by decide)]
    decide
  · rw [keyPath_append_element hp outline_halfNamed (by decide)]
    decide

/-- **A well-formed text behind one that leaves no literal open does not change the path**, whatever
value it is of and whatever blanks stand around that. -/
theorem keyPath_append_of_isJson {p v : List Char} (hp : Quote.outside.after p = .outside)
    (hv : IsJson v) {lookahead : Int} (hpos : 1 ≤ lookahead) (memberPosition : Bool) :
    keyPath (p ++ v) lookahead memberPosition = keyPath p lookahead memberPosition := by
  have houtline : Outline .element v := IsJson.outline hv
  exact (houtline.returned_ofText hp hpos).keyPath_eq memberPosition

end SchemaAssist.Cursor
