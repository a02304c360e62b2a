/-
# URIs are split into the parts they are put together from

A URI is put together from a scheme, an authority and a path.  If authority and path are escaped,
splitting gives them back (`Uri.split_assembled`); a path by itself is a URI without a scheme
(`Uri.split_path`).
-/
import Mathlib.Data.List.TakeWhile
import SchemaAssist.Proofs.Resource.Percent
import SchemaAssist.Resource.Uri

namespace SchemaAssist.Resource

open SchemaAssist.Text

/-! ## 1. Cutting texts -/

theorem cutAtFirst_append {mark : Char} {a : List Char} (h : mark ∉ a) (rest : List Char) :
    cutAtFirst mark (a ++ mark :: rest) = (a, some rest) := by
  have hmarkless : ∀ c ∈ a, (c != mark) = true := by
    intro c hc
    exact bne_iff_ne.mpr (ne_of_mem_of_not_mem hc h)
  rw [cutAtFirst, List.dropWhile_append_of_pos hmarkless, List.dropWhile_cons_of_neg (by simp),
    List.takeWhile_append_of_pos hmarkless, List.takeWhile_cons_of_neg (by simp), List.append_nil]

theorem cleaned_of_forall {c : Char} {text : List Char} (hc : isSkipped c = false)
    (h : ∀ x ∈ c :: text, isDropped x = false) : cleaned (c :: text) = c :: text := by
  rw [cleaned, List.dropWhile_cons_of_neg (by simp [hc]), List.filter_eq_self]
  intro x hx
  rw [h x hx]
  rfl

/-! ## 2. The parts -/

/-- The text is the name of a scheme. -/
structure IsSchemeName (name : List Char) : Prop where
  /-- It consists of letters, digits, plus, minus and points. -/
  parts : name.all isSchemePart = true
  head : (name.head?.map Char.isAlpha).getD false = true

/-- The text is a path below an authority: it is escaped, slashes apart, and starts with one unless
it is empty. -/
structure IsEscapedPath (path : List Char) : Prop where
  plain : ∀ c ∈ path, IsPlain c ∨ c = '/'
  head : ∀ c ∈ path.head?, c = '/'

theorem splitScheme_append {name : List Char} (h : IsSchemeName name) (rest : List Char) :
    splitScheme (name ++ ':' :: rest) = (name.map Char.toLower, rest) := by
  have hcolon : ':' ∉ name :=
    fun hmem => absurd (List.all_eq_true.mp h.parts ':' hmem) (by decide)
  rw [splitScheme, cutAtFirst_append hcolon]
  simp only [h.parts, h.head]
  rfl

/-- What is escaped ends neither authority nor path, and none of it is dropped. -/
theorem IsPlain.no_mark {c : Char} (h : IsPlain c) :
    endsAuthority c = false ∧ endsPath c = false ∧ isDropped c = false := by
  have := h.not_mem
  simp only [List.mem_cons, not_or] at this
  simp [endsAuthority, endsPath, isDropped, this]

theorem splitAuthority_append {authority path : List Char} (ha : ∀ c ∈ authority, IsPlain c)
    (hp : IsEscapedPath path) :
    splitAuthority ('/' :: '/' :: (authority ++ path)) = (authority, path) := by
  have hgo : ∀ c ∈ authority, (!endsAuthority c) = true := by
    intro c hc
    rw [(ha c hc).no_mark.1]
    rfl
  rw [splitAuthority, List.takeWhile_append_of_pos hgo, List.dropWhile_append_of_pos hgo]
  cases path with
  | nil => simp
  | cons c path =>
    obtain rfl := hp.head c rfl
    rw [List.takeWhile_cons_of_neg (by decide), List.dropWhile_cons_of_neg (by decide),
      List.append_nil]

theorem checkAuthority_of_isPlain {authority : List Char} (h : ∀ c ∈ authority, IsPlain c) :
    checkAuthority authority = .ok () := by
  have hopens : authority.contains '[' = false := by
    simpa using fun hmem => (h '[' hmem).not_mem (by simp)
  have hcloses : authority.contains ']' = false := by
    simpa using fun hmem => (h ']' hmem).not_mem (by simp)
  have hlookalikes : (authority.any fun c => delimiterLookalikes.contains c.toNat) = false := by
    rw [List.any_eq_false]
    intro c hc hmem
    have hascii : c.toNat < 0x80 := of_decide_eq_true (h c hc).isAscii
    have hbeyond : ∀ n ∈ delimiterLookalikes, 0x80 ≤ n := by decide
    exact absurd (hbeyond _ (List.contains_iff_mem.mp hmem)) (by omega)
  rw [checkAuthority, hopens, hcloses, hlookalikes]
  rfl

theorem takeWhile_path {path : List Char} (h : ∀ c ∈ path, IsPlain c ∨ c = '/') :
    path.takeWhile (!endsPath ·) = path := by
  rw [List.takeWhile_eq_self_iff]
  intro c hc
  rcases h c hc with hplain | rfl
  · rw [hplain.no_mark.2.1]
    rfl
  · decide

/-! ## 3. Whole URIs -/

theorem isDropped_of_isSchemePart {c : Char} (h : isSchemePart c = true) : isDropped c = false := by
  by_contra hdropped
  simp only [isDropped, Bool.not_eq_false, Bool.or_eq_true, beq_iff_eq] at hdropped
  rcases hdropped with (rfl | rfl) | rfl <;> exact absurd h (by decide)

theorem IsSchemeName.exists_cons {name : List Char} (h : IsSchemeName name) :
    ∃ c rest, name = c :: rest ∧ isSkipped c = false := by
  cases name with
  | nil => exact absurd h.head (by decide)
  | cons c rest =>
    have halpha : c.isAlpha = true := h.head
    have := (bounds_of_isAlphanum (c := c) (by rw [Char.isAlphanum, halpha, Bool.true_or])).1
    exact ⟨c, rest, rfl, decide_eq_false (by omega)⟩

theorem cleaned_assembled {name authority path : List Char} (hname : IsSchemeName name)
    (ha : ∀ c ∈ authority, IsPlain c) (hp : IsEscapedPath path) :
    cleaned (name ++ ':' :: '/' :: '/' :: (authority ++ path))
      = name ++ ':' :: '/' :: '/' :: (authority ++ path) := by
  have hall : ∀ c ∈ name ++ ':' :: '/' :: '/' :: (authority ++ path), isDropped c = false := by
    intro c hc
    simp only [List.mem_append, List.mem_cons] at hc
    rcases hc with hc | rfl | rfl | rfl | hc | hc
    · exact isDropped_of_isSchemePart (List.all_eq_true.mp hname.parts c hc)
    · decide
    · decide
    · decide
    · exact (ha c hc).no_mark.2.2
    · rcases hp.plain c hc with hc | rfl
      · exact hc.no_mark.2.2
      · decide
  obtain ⟨c, rest, rfl, hc⟩ := hname.exists_cons
  exact cleaned_of_forall hc hall

/-- **A URI put together from escaped parts is split into them.** -/
theorem Uri.split_assembled {name authority path : List Char} (hname : IsSchemeName name)
    (ha : ∀ c ∈ authority, IsPlain c) (hp : IsEscapedPath path) :
    Uri.split (name ++ ':' :: '/' :: '/' :: (authority ++ path))
      = .ok ⟨name.map Char.toLower, authority, path⟩ := by
  rw [Uri.split, cleaned_assembled hname ha hp, splitScheme_append hname]
  simp only [splitAuthority_append ha hp, checkAuthority_of_isPlain ha, takeWhile_path hp.plain]

/-- **A path by itself has neither scheme nor authority.** -/
theorem Uri.split_path {path : List Char} (hhead : path.head? ≠ some '/')
    (h : ∀ c ∈ path, isDropped c = false) :
    Uri.split ('/' :: path) = .ok ⟨[], [], ('/' :: path).takeWhile (!endsPath ·)⟩ := by
  have hclean : cleaned ('/' :: path) = '/' :: path :=
    cleaned_of_forall (by decide) (List.forall_mem_cons.mpr ⟨by decide, h⟩)
  have hscheme : splitScheme ('/' :: path) = ([], '/' :: path) := by
    rw [splitScheme, cutAtFirst, List.dropWhile_cons_of_pos (by decide),
      List.takeWhile_cons_of_pos (by decide)]
    cases path.dropWhile (· != ':') with
    | nil => rfl
    | cons _ _ => rfl
  have hauthority : splitAuthority ('/' :: path) = ([], '/' :: path) := by
    rw [splitAuthority]
    rintro rest heq
    obtain rfl := (List.cons.inj heq).2
    exact hhead rfl
  rw [Uri.split, hclean, hscheme]
  simp only [hauthority, checkAuthority_of_isPlain (List.forall_mem_nil IsPlain)]

end SchemaAssist.Resource
