/-
# The type of a document survives escaping

Both conventions of naming a type are followed through the escapes of a URI:

- a URI of the resource scheme that is written from names gives the third of them back, whatever
  the names hold and however many slashes stand between them (`type_of_resourceUri`);
- a path and the file URI written from it belong to the same type, the one before the extension if
  the file names it there (`type_of_path`).
-/
import SchemaAssist.Proofs.Resource.Uri
import SchemaAssist.Resource.TypeName

namespace SchemaAssist.Resource

/-! ## 1. Segments -/

/-- The parts of a text between slashes, empty ones left out. -/
def slashParts (text : List Char) : List (List Char) :=
  (text.splitOn '/').filter (!·.isEmpty)

theorem slashParts_append (a b : List Char) :
    slashParts (a ++ '/' :: b) = slashParts a ++ slashParts b := by
  rw [slashParts, List.splitOn_append_cons_self, List.filter_append]
  rfl

theorem slashParts_cons (b : List Char) : slashParts ('/' :: b) = slashParts b :=
  slashParts_append [] b

theorem slashParts_replicate (b : List Char) : ∀ n,
    slashParts (List.replicate n '/' ++ b) = slashParts b
  | 0 => rfl
  | n + 1 => by
    rw [List.replicate_succ, List.cons_append, slashParts_cons, slashParts_replicate b n]

/-- A name as a segment of a URI. -/
def escaped (name : List Char) : List Char :=
  quote (fun _ => false) name

theorem isPlain_of_mem_escaped {name : List Char} : ∀ c ∈ escaped name, IsPlain c :=
  fun c hc => (isPlain_or_keep c hc).resolve_right Bool.false_ne_true

theorem unquote_slashParts_escaped (name : List Char) :
    (slashParts (escaped name)).map unquote = [name].filter (!·.isEmpty) := by
  have hslash : '/' ∉ escaped name :=
    fun hmem => (isPlain_of_mem_escaped '/' hmem).not_mem (by simp)
  rw [slashParts, List.splitOn_eq_singleton hslash]
  by_cases hname : name = []
  · subst hname
    rfl
  · have hescaped : escaped name ≠ [] := fun h => hname ((quote_eq_nil_iff rfl).mp h)
    rw [List.filter_cons_of_pos (by simpa using hescaped),
      List.filter_cons_of_pos (by simpa using hname)]
    exact congrArg (fun text => [text]) (unquote_quote rfl name)

/-! ## 2. URIs of the resource scheme -/

/-- The path of the names, each after a slash and as many more as it says. -/
def slashed : List (Nat × List Char) → List Char
  | [] => []
  | (extra, name) :: path => '/' :: (List.replicate extra '/' ++ (escaped name ++ slashed path))

/-- The URI of the resource scheme with the names in it, the first one as its authority. -/
def resourceUri (profile : List Char) (path : List (Nat × List Char)) : List Char :=
  resourceScheme ++ ':' :: '/' :: '/' :: (escaped profile ++ slashed path)

/-- The names in a URI of the resource scheme, empty ones left out. -/
def namesIn (profile : List Char) (path : List (Nat × List Char)) : List (List Char) :=
  (profile :: path.map (·.2)).filter (!·.isEmpty)

theorem slashParts_append_slashed (a : List Char) (path : List (Nat × List Char)) :
    slashParts (a ++ slashed path) = slashParts a ++ slashParts (slashed path) := by
  cases path with
  | nil => simp [slashed, slashParts]
  | cons entry path => rw [slashed, slashParts_append, slashParts_cons]

theorem unquote_slashParts_slashed : ∀ path : List (Nat × List Char),
    (slashParts (slashed path)).map unquote = (path.map (·.2)).filter (!·.isEmpty)
  | [] => rfl
  | (extra, name) :: path => by
    rw [slashed, slashParts_cons, slashParts_replicate, slashParts_append_slashed, List.map_append,
      unquote_slashParts_escaped, unquote_slashParts_slashed path, ← List.filter_append]
    rfl

theorem isEscapedPath_slashed : ∀ path : List (Nat × List Char), IsEscapedPath (slashed path)
  | [] => ⟨by simp [slashed], by simp [slashed]⟩
  | (extra, name) :: path => by
    refine ⟨fun c hc => ?_, by simp [slashed]⟩
    simp only [slashed, List.mem_cons, List.mem_append, List.mem_replicate] at hc
    rcases hc with rfl | ⟨-, rfl⟩ | hc | hc
    · exact .inr rfl
    · exact .inr rfl
    · exact .inl (isPlain_of_mem_escaped c hc)
    · exact (isEscapedPath_slashed path).plain c hc

/-- The segments of a URI written from names are these names. -/
theorem split_resourceUri (profile : List Char) (path : List (Nat × List Char)) :
    ∃ uri, Uri.split (resourceUri profile path) = .ok uri ∧ uri.scheme = resourceScheme
      ∧ uri.segments = namesIn profile path := by
  refine ⟨⟨resourceScheme, escaped profile, slashed path⟩, ?_, rfl, ?_⟩
  · exact Uri.split_assembled ⟨by decide, by decide⟩ isPlain_of_mem_escaped
      (isEscapedPath_slashed path)
  · have hparts : slashParts (escaped profile ++ '/' :: slashed path)
        = slashParts (escaped profile) ++ slashParts (slashed path) := slashParts_append _ _
    calc (Uri.mk resourceScheme (escaped profile) (slashed path)).segments
        = (slashParts (escaped profile ++ '/' :: slashed path)).map unquote := rfl
      _ = [profile].filter (!·.isEmpty) ++ (path.map (·.2)).filter (!·.isEmpty) := by
          rw [hparts, List.map_append, unquote_slashParts_escaped, unquote_slashParts_slashed]
      _ = namesIn profile path := by
          rw [← List.filter_append, List.singleton_append, namesIn]

theorem Uri.namedType?_of_length_lt {uri : Uri} (h : uri.segments.length < 4) :
    uri.namedType? = none := by
  rw [Uri.namedType?]
  split
  · rename_i hsegments
    rw [hsegments] at h
    simp only [List.length_cons] at h
    omega
  · rfl

theorem detectType_of_resourceScheme (known : List String) {text : List Char} {uri : Uri}
    (hsplit : Uri.split text = .ok uri) (hscheme : uri.scheme = resourceScheme) :
    detectType known text = .ok uri.namedType? := by
  rw [detectType, hsplit]
  simp only [if_pos hscheme]

/-- **A URI written from at least four names has the third one as its type, and one written from
fewer has none**, however many slashes stand between them or behind them. -/
theorem type_of_resourceUri (known : List String) :
    (∀ profile space type name : List Char,
      profile ≠ [] → space ≠ [] → type ≠ [] → name ≠ [] →
      ∀ (i j k : Nat) (more : List (Nat × List Char)),
        detectType known (resourceUri profile ((i, space) :: (j, type) :: (k, name) :: more))
          = .ok (some (String.ofList type)))
    ∧ ∀ (profile : List Char) (path : List (Nat × List Char)),
      (namesIn profile path).length < 4 →
        detectType known (resourceUri profile path) = .ok none := by
  constructor
  · intro profile space type name hprofile hspace htype hname i j k more
    obtain ⟨uri, hsplit, hscheme, hsegments⟩ :=
      split_resourceUri profile ((i, space) :: (j, type) :: (k, name) :: more)
    simp only [namesIn, List.map_cons, List.filter_cons, List.isEmpty_eq_false_iff.mpr hprofile,
      List.isEmpty_eq_false_iff.mpr hspace, List.isEmpty_eq_false_iff.mpr htype,
      List.isEmpty_eq_false_iff.mpr hname, Bool.not_false, if_true] at hsegments
    rw [detectType_of_resourceScheme known hsplit hscheme, Uri.namedType?, hsegments]
  · intro profile path hfew
    obtain ⟨uri, hsplit, hscheme, hsegments⟩ := split_resourceUri profile path
    rw [← hsegments] at hfew
    rw [detectType_of_resourceScheme known hsplit hscheme, Uri.namedType?_of_length_lt hfew]

/-- A type with characters that are reserved in a URI, behind a doubled slash. -/
theorem type_of_resourceUri_reserved :
    resourceUri "a/b".toList
        [(0, "[n]?".toList), (1, "t:%2F😀".toList), (0, "x#".toList), (2, [])]
      = "f5xc://a%2Fb/%5Bn%5D%3F//t%3A%252F%F0%9F%98%80/x%23///".toList
    ∧ detectType [] (resourceUri "a/b".toList
        [(0, "[n]?".toList), (1, "t:%2F😀".toList), (0, "x#".toList), (2, [])])
      = .ok (some "t:%2F😀")
    ∧ detectType [] (resourceUri "a/b".toList
        [(0, "[n]?".toList), (1, "t:%2F😀".toList), (2, [])])
      = .ok none := by
  obtain ⟨hthird, hfew⟩ := type_of_resourceUri []
  refine ⟨by decide +kernel, ?_, hfew _ _ (by decide)⟩
  exact hthird _ _ _ _ (by decide) (by decide) (by decide) (by decide) 0 1 0 [(2, [])]

/-! ## 3. File names -/

/-- Whether a character separates the components of a path. -/
def isSeparator (c : Char) : Bool := c == '/' || c == '\\'

/-- The last component of the path is a name, a point, the type and the extension. -/
structure NamesType (path type : List Char) : Prop where
  shape : ∃ folder separator name,
    path = folder ++ separator :: (name ++ '.' :: type ++ ".json".toList)
    ∧ isSeparator separator = true ∧ name.any isSeparator = false
  nonempty : type ≠ []
  word : type.all isTypeChar = true

theorem any_isSeparator_of_word {type : List Char} (h : type.all isTypeChar = true) :
    type.any isSeparator = false := by
  rw [List.any_eq_false]
  intro c hc hseparator
  have hword := List.all_eq_true.mp h c hc
  simp only [isSeparator, Bool.or_eq_true, beq_iff_eq] at hseparator
  rcases hseparator with rfl | rfl <;> exact absurd hword (by decide)

/-- The last component of a path is what follows its last separator. -/
theorem fileName_append {folder name : List Char} {separator : Char}
    (hseparator : isSeparator separator = true) (hname : name.any isSeparator = false)
    (hlength : 1 < name.length) : fileName (folder ++ separator :: name) = name := by
  rw [List.any_eq_false] at hname
  have hslash : (if separator = '\\' then '/' else separator) = '/' := by
    rcases (Bool.or_eq_true _ _).mp hseparator with h | h <;> rw [beq_iff_eq.mp h] <;> rfl
  have hsame : name.map (fun c => if c = '\\' then '/' else c) = name := by
    refine (List.map_congr_left fun c hc => if_neg ?_).trans (List.map_id name)
    rintro rfl
    exact hname '\\' hc (by decide)
  have hpart : (name != [] && name != ['.']) = true := by
    rw [Bool.and_eq_true, bne_iff_ne, bne_iff_ne]
    constructor <;> rintro rfl <;> simp at hlength
  have hwhole : name.splitOn '/' = [name] :=
    List.splitOn_eq_singleton fun hmem => hname '/' hmem (by decide)
  rw [fileName, List.map_append, List.map_cons, hslash, hsame, List.splitOn_append_cons_self,
    hwhole]
  have hkept : [name].filter (fun part => part != [] && part != ['.']) = [name] :=
    List.filter_cons_of_pos hpart
  simp only [List.filter_append, hkept, List.getLast?_concat, Option.getD_some]

theorem stem?_append (stem : List Char) : stem? (stem ++ ".json".toList) = some stem := by
  have hreversed : (stem ++ ".json".toList).reverse = "nosj.".toList ++ stem.reverse := by
    rw [List.reverse_append]
    rfl
  rw [stem?, hreversed]
  simp

theorem dottedType?_append (name : List Char) {type : List Char} (hne : type ≠ [])
    (hword : type.all isTypeChar = true) :
    dottedType? (name ++ '.' :: type) = some type := by
  have hreversed : (name ++ '.' :: type).reverse = type.reverse ++ '.' :: name.reverse := by
    simp
  have hrun : ∀ c ∈ type.reverse, isTypeChar c = true :=
    fun c hc => List.all_eq_true.mp hword c (List.mem_reverse.mp hc)
  rw [dottedType?, hreversed, List.takeWhile_append_of_pos hrun, List.dropWhile_append_of_pos hrun,
    List.takeWhile_cons_of_neg (by decide), List.dropWhile_cons_of_neg (by decide)]
  simp [hne]

theorem typeOfFile_of_namesType (known : List String) {path type : List Char}
    (h : NamesType path type) : typeOfFile known path = some (String.ofList type) := by
  obtain ⟨folder, separator, name, rfl, hseparator, hname⟩ := h.shape
  have hlast : fileName (folder ++ separator :: (name ++ '.' :: type ++ ".json".toList))
      = name ++ '.' :: type ++ ".json".toList := by
    apply fileName_append hseparator
    · rw [List.any_append, List.any_append, List.any_cons, hname, any_isSeparator_of_word h.word]
      decide
    · have htype := List.length_pos_iff.mpr h.nonempty
      simp only [List.length_append, List.length_cons]
      omega
  rw [typeOfFile, hlast, stem?_append]
  simp only [dottedType?_append name h.nonempty h.word]

/-! ## 4. Paths and their URIs -/

/-- The text is a path from the root in which splitting finds neither a scheme nor an authority. -/
structure IsRooted (path : List Char) : Prop where
  /-- It starts with exactly one slash. -/
  start : ∃ rest, path = '/' :: rest ∧ rest.head? ≠ some '/'
  /-- It holds no tab, carriage return or line feed. -/
  unbroken : path.any isDropped = false

/-- The file URI of a path. -/
def fileUri (path : List Char) : List Char :=
  fileScheme ++ ':' :: '/' :: '/' :: quote (· == '/') path

theorem split_fileUri {path : List Char} (h : IsRooted path) :
    Uri.split (fileUri path) = .ok ⟨fileScheme, [], quote (· == '/') path⟩ := by
  obtain ⟨rest, rfl, -⟩ := h.start
  have hpath : IsEscapedPath (quote (· == '/') ('/' :: rest)) := by
    refine ⟨fun c hc => (isPlain_or_keep c hc).imp_right beq_iff_eq.mp, ?_⟩
    rw [quote_cons, quoteChar_of_keep (by decide)]
    simp
  exact Uri.split_assembled ⟨by decide, by decide⟩ (List.forall_mem_nil IsPlain) hpath

theorem exists_split_rooted {path : List Char} (h : IsRooted path) :
    ∃ uri, Uri.split path = .ok uri ∧ uri.scheme = [] := by
  obtain ⟨rest, rfl, hrest⟩ := h.start
  have hunbroken : rest.any isDropped = false := h.unbroken
  rw [List.any_eq_false] at hunbroken
  exact ⟨_, Uri.split_path hrest fun c hc => eq_false_of_ne_true (hunbroken c hc), rfl⟩

theorem hasJsonExtension_append (text : List Char) :
    hasJsonExtension (text ++ ".json".toList) = true :=
  List.isSuffixOf_iff_suffix.mpr (List.suffix_append _ _)

/-- The extension is written as it is. -/
theorem hasJsonExtension_of_namesType {path type : List Char} (h : NamesType path type) :
    hasJsonExtension path = true ∧ hasJsonExtension (fileUri path) = true := by
  obtain ⟨folder, separator, name, rfl, -, -⟩ := h.shape
  have hkept : quote (· == '/') ".json".toList = ".json".toList := by decide
  rw [← List.cons_append, ← List.append_assoc, fileUri, quote_append, hkept]
  refine ⟨hasJsonExtension_append _, ?_⟩
  rw [← List.cons_append, ← List.cons_append, ← List.cons_append, ← List.append_assoc]
  exact hasJsonExtension_append _

/-- A detected type makes a document with the extension one that is completed. -/
theorem isResourceDocument_of_detectType {known : List String} {text : List Char} {uri : Uri}
    {type : String} (hsplit : Uri.split text = .ok uri) (hextension : hasJsonExtension text = true)
    (htype : detectType known text = .ok (some type)) :
    isResourceDocument known "json" text = .ok true := by
  rw [isResourceDocument, hsplit, hextension, htype]
  simp

/-- **A path and its file URI belong to the same type, the one that the file names.** -/
theorem type_of_path (known : List String) {path : List Char} (h : IsRooted path) :
    (detectType known path = .ok (typeOfFile known path)
      ∧ detectType known (fileUri path) = .ok (typeOfFile known path))
    ∧ ∀ type, NamesType path type →
      (detectType known path = .ok (some (String.ofList type))
        ∧ detectType known (fileUri path) = .ok (some (String.ofList type)))
      ∧ isResourceDocument known "json" path = .ok true
      ∧ isResourceDocument known "json" (fileUri path) = .ok true := by
  obtain ⟨uri, hsplit, hscheme⟩ := exists_split_rooted h
  have hpath : detectType known path = .ok (typeOfFile known path) := by
    rw [detectType, hsplit]
    simp only [hscheme]
    rfl
  have huri : detectType known (fileUri path) = .ok (typeOfFile known path) := by
    have hread : unquote (quote (· == '/') path) = path := unquote_quote rfl path
    rw [detectType, split_fileUri h]
    simp only [hread]
    rfl
  refine ⟨⟨hpath, huri⟩, fun type htype => ?_⟩
  rw [typeOfFile_of_namesType known htype] at hpath huri
  obtain ⟨hextension, hextensionUri⟩ := hasJsonExtension_of_namesType htype
  exact ⟨⟨hpath, huri⟩, isResourceDocument_of_detectType hsplit hextension hpath,
    isResourceDocument_of_detectType (split_fileUri h) hextensionUri huri⟩

/-- A file with characters that are reserved in a URI and a name that names a type itself. -/
theorem type_of_path_reserved :
    fileUri "/srv/#1\\é%41:?[.pool.json.http_lb.json".toList
      = "file:///srv/%231%5C%C3%A9%2541%3A%3F%5B.pool.json.http_lb.json".toList
    ∧ (detectType [] "/srv/#1\\é%41:?[.pool.json.http_lb.json".toList = .ok (some "http_lb")
      ∧ detectType [] (fileUri "/srv/#1\\é%41:?[.pool.json.http_lb.json".toList)
        = .ok (some "http_lb"))
    ∧ isResourceDocument [] "json" "/srv/#1\\é%41:?[.pool.json.http_lb.json".toList = .ok true
    ∧ isResourceDocument [] "json" (fileUri "/srv/#1\\é%41:?[.pool.json.http_lb.json".toList)
      = .ok true := by
  have hrooted : IsRooted "/srv/#1\\é%41:?[.pool.json.http_lb.json".toList :=
    ⟨⟨_, rfl, by decide⟩, by decide⟩
  have hnames : NamesType "/srv/#1\\é%41:?[.pool.json.http_lb.json".toList "http_lb".toList :=
    ⟨⟨"/srv/#1".toList, '\\', "é%41:?[.pool.json".toList, by decide⟩, by decide, by decide⟩
  exact ⟨by decide +kernel, (type_of_path [] hrooted).2 _ hnames⟩

end SchemaAssist.Resource
