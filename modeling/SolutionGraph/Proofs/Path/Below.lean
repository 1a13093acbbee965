import Mathlib.Data.List.Flatten
import SolutionGraph.Proofs.FileTree.Location

/-!
# Paths below a directory

* **the rest**: what is left of a path behind a directory goes on from the directory to the same place
  (`components_of_dropStart?`, `normalize_join_of_dropStart?`);
* **names**: below `ofNames done` the rest of `ofNames (done ++ names)` are the names, with a slash between each two
  (`dropStart?_ofNames`);
* **letters**: the characters of a path but for its slashes. Going on from a directory adds letters, and folding dots away
  only drops some (`letters_normalize_sublist`).
-/

namespace SolutionGraph

namespace Text

/-- Pieces without separators are cut apart where they were joined. -/
theorem splitOn_join {separator : Char} {pieces : List Text} (clear : ∀ piece ∈ pieces, separator ∉ piece)
    (some : pieces ≠ []) : splitOn separator (join [separator] pieces) = pieces := by
  induction pieces with
  | nil => exact absurd rfl some
  | cons piece pieces ih =>
    rw [List.forall_mem_cons] at clear
    cases pieces with
    | nil => exact splitOn_of_not_mem clear.1
    | cons next more =>
      rw [join_cons_cons, splitOn_append_cons clear.1, ih clear.2 (List.cons_ne_nil _ _)]

/-- A text has the characters of its pieces, and separators. -/
theorem flatten_splitOn (separator : Char) (t : Text) :
    (splitOn separator t).flatten = t.filter fun c => c != separator := by
  induction t with
  | nil => rfl
  | cons c rest ih =>
    rw [splitOn]
    by_cases here : c = separator
    · rw [if_pos here, List.flatten_cons, List.nil_append, ih, List.filter_cons_of_neg (by simp [here])]
    · rw [if_neg here, List.filter_cons_of_pos (by simp [here]), ← ih]
      obtain ⟨piece, pieces, cut⟩ := List.exists_cons_of_ne_nil (splitOn_ne_nil separator rest)
      rw [cut]
      rfl

end Text

namespace Path

/-! ## What is left behind a directory -/

/-- Silent segments name no step. -/
theorem innerComponent_of_isSilent {segment : Text} (silent : isSilent segment) : innerComponent segment = none :=
  if_pos silent

/-- A segment that is not silent names a step. -/
theorem exists_innerComponent {segment : Text} (loud : ¬ isSilent segment) : ∃ c, innerComponent segment = some c := by
  unfold innerComponent
  rw [if_neg loud]
  split <;> exact ⟨_, rfl⟩

theorem filterMap_dropWhile_isSilent (segments : List Text) :
    (segments.dropWhile isSilent).filterMap innerComponent = segments.filterMap innerComponent := by
  induction segments with
  | nil => rfl
  | cons segment rest ih =>
    by_cases silent : isSilent segment
    · rw [List.dropWhile_cons_of_pos silent, ih, List.filterMap_cons_none (innerComponent_of_isSilent silent)]
    · rw [List.dropWhile_cons_of_neg silent]

theorem filterMap_trimSilent (segments : List Text) :
    (trimSilent segments).filterMap innerComponent = segments.filterMap innerComponent := by
  rw [trimSilent, List.filterMap_reverse, filterMap_dropWhile_isSilent, List.filterMap_reverse, List.reverse_reverse,
    filterMap_dropWhile_isSilent]

theorem filterMap_dropSegments (n : Nat) (segments : List Text) :
    (dropSegments n segments).filterMap innerComponent = (segments.filterMap innerComponent).drop n := by
  induction segments generalizing n with
  | nil => cases n <;> simp [dropSegments]
  | cons segment rest ih =>
    cases n with
    | zero => rfl
    | succ n =>
      rw [dropSegments, ih]
      by_cases silent : isSilent segment
      · rw [if_pos silent, List.filterMap_cons_none (innerComponent_of_isSilent silent)]
      · obtain ⟨c, inner⟩ := exists_innerComponent silent
        rw [if_neg silent, List.filterMap_cons_some inner, List.drop_succ_cons]

theorem dropSegments_suffix (n : Nat) (segments : List Text) : dropSegments n segments <:+ segments := by
  induction segments generalizing n with
  | nil => cases n <;> exact List.suffix_rfl
  | cons segment rest ih =>
    cases n with
    | zero => exact List.suffix_rfl
    | succ n => exact (ih _).trans (List.suffix_cons segment rest)

/-- Without silent segments at its ends a list of segments has some of them. -/
theorem mem_of_mem_trimSilent {segments : List Text} {segment : Text} (h : segment ∈ trimSilent segments) :
    segment ∈ segments := by
  rw [trimSilent, List.mem_reverse] at h
  have inner := (List.dropWhile_suffix _).subset h
  exact (List.dropWhile_suffix _).subset (List.mem_reverse.1 inner)

/-- The first segment that is left is not silent. -/
theorem isSilent_head?_trimSilent {segments : List Text} {first : Text} (h : (trimSilent segments).head? = some first) :
    isSilent first = false := by
  have start : trimSilent segments <+: segments.dropWhile isSilent := by
    rw [trimSilent, ← List.reverse_suffix, List.reverse_reverse]
    exact List.dropWhile_suffix _
  obtain ⟨rest, whole⟩ := start
  have same : (segments.dropWhile isSilent).head? = some first := by
    rw [← whole, List.head?_append, h, Option.some_or]
  have loud := List.head?_dropWhile_not isSilent segments
  rw [same] at loud
  simpa using loud

/-- Segments that are joined give a relative path, if the first of them is not silent. -/
theorem isAbsolute_join_segments {segments : List Text} (clear : ∀ segment ∈ segments, '/' ∉ segment)
    (loud : ∀ first, segments.head? = some first → isSilent first = false) :
    (⟨Text.join "/" segments⟩ : Path).isAbsolute = false := by
  cases segments with
  | nil => rfl
  | cons first rest =>
    have inside := (List.forall_mem_cons.1 clear).1
    have solid := loud first rfl
    cases first with
    | nil => cases solid
    | cons c first =>
      have other : c ≠ '/' := fun here => inside (by rw [here]; exact List.mem_cons_self)
      cases rest <;> simp [Text.join, isAbsolute, other]

/-- **What is left of an absolute path** behind a directory: a relative path with the further components. -/
theorem components_of_dropStart? {p d r : Path} (absolute : p.isAbsolute) (absolute' : d.isAbsolute)
    (h : p.dropStart? d = some r) : r.isAbsolute = false ∧ p.components = d.components ++ r.innerComponents := by
  unfold dropStart? at h
  split at h
  · rename_i starts
    obtain ⟨more, start, _⟩ := components_of_isAbsolute absolute'
    obtain ⟨t⟩ := p
    cases t with
    | nil => cases absolute
    | cons c body =>
      obtain rfl : c = '/' := by simpa [isAbsolute] using absolute
      have cut : (Text.splitOn '/' ('/' :: body)).drop 1 = Text.splitOn '/' body := rfl
      simp only [start, cut, Option.some.injEq] at h
      obtain rfl := h
      have clear : ∀ segment ∈ trimSilent (dropSegments more.length (Text.splitOn '/' body)), '/' ∉ segment := fun _ mem =>
        Text.not_mem_of_mem_splitOn ((dropSegments_suffix _ _).subset (mem_of_mem_trimSilent mem))
      refine ⟨isAbsolute_join_segments clear fun _ => isSilent_head?_trimSilent, ?_⟩
      have inner : innerComponents ⟨Text.join "/" (trimSilent (dropSegments more.length (Text.splitOn '/' body)))⟩ =
          ((Text.splitOn '/' body).filterMap innerComponent).drop more.length := by
        rw [← filterMap_dropSegments, ← filterMap_trimSilent]
        generalize trimSilent (dropSegments more.length (Text.splitOn '/' body)) = segments at clear ⊢
        by_cases none : segments = []
        · rw [none]
          rfl
        · exact congrArg (List.filterMap innerComponent) (Text.splitOn_join clear none)
      have prefixed : more <+: (Text.splitOn '/' body).filterMap innerComponent := by
        rw [startsWith, start, List.isPrefixOf_iff_prefix] at starts
        exact (List.cons_prefix_cons.1 starts).2
      rw [inner, start, List.cons_append, List.prefix_iff_eq_append.1 prefixed]
      rfl
  · cases h

/-- The rest of a path goes on from the directory to where the path leads. -/
theorem normalize_join_of_dropStart? {p d r : Path} (absolute : p.isAbsolute) (absolute' : d.isAbsolute)
    (h : p.dropStart? d = some r) : (d.join r).normalize = p.normalize := by
  obtain ⟨relative, whole⟩ := components_of_dropStart? absolute absolute' h
  have some : d.text ≠ [] := by
    intro none
    rw [isAbsolute, none] at absolute'
    cases absolute'
  rw [normalize, normalComponents, components_join relative some, ← whole]
  rfl

/-! ## Names below names -/

section Names

variable {done names : List Text} {name : Text}

/-- Names with a slash in front of each. -/
def slashed (names : List Text) : Text := names.flatMap fun name => '/' :: name

theorem slashed_append (done names : List Text) : slashed (done ++ names) = slashed done ++ slashed names :=
  List.flatMap_append

theorem slashed_eq_cons_join (some : names ≠ []) : slashed names = '/' :: Text.join "/" names := by
  induction names with
  | nil => exact absurd rfl some
  | cons name names ih =>
    cases names with
    | nil => simp [slashed, Text.join]
    | cons next more =>
      have rest := ih (List.cons_ne_nil _ _)
      have joined : Text.join "/" (name :: next :: more) = name ++ '/' :: Text.join "/" (next :: more) :=
        Text.join_cons_cons '/' name next more
      rw [slashed, List.flatMap_cons, ← slashed, rest, joined, List.cons_append]

/-- A path that goes from the root through some names is these names, each behind a slash. -/
theorem text_ofNames_slashed (plain : ∀ name ∈ names, IsName name) (some : names ≠ []) :
    (ofNames names).text = slashed names := by
  obtain ⟨name, rest, rfl⟩ := List.exists_cons_of_ne_nil some
  rw [text_ofNames plain, List.map_cons, spell, List.flatMap_map]
  rfl

theorem isCanonical_ofNames (plain : ∀ name ∈ names, IsName name) : (ofNames names).IsCanonical := by
  refine isCanonical_ofComponents ⟨_, .inr rfl, isPlain_of_mem_map_name plain⟩ ?_
  rw [List.reverse_cons, ← List.map_reverse]
  induction names.reverse with
  | nil => exact .root
  | cons name names ih => exact .name name ih

theorem components_ofNames (plain : ∀ name ∈ names, IsName name) :
    (ofNames names).components = .root :: names.map .name :=
  components_ofComponents ⟨_, .inr rfl, isPlain_of_mem_map_name plain⟩

/-- A list of names is told by its path. -/
theorem ofNames_inj {names' : List Text} (plain : ∀ name ∈ names, IsName name) (plain' : ∀ name ∈ names', IsName name)
    (same : ofNames names = ofNames names') : names = names' := by
  have cs := components_ofNames plain
  rw [same, components_ofNames plain', List.cons.injEq, map_name_inj] at cs
  exact cs.2.symm

theorem splitOn_slashed (plain : ∀ name ∈ names, IsName name) (some : names ≠ []) :
    (Text.splitOn '/' (slashed names)).drop 1 = names := by
  rw [slashed_eq_cons_join some]
  exact Text.splitOn_join (fun name mem => (plain name mem).2) some

/-- Names that are all loud are dropped one by one. -/
theorem dropSegments_append (plain : ∀ name ∈ done, IsName name) (names : List Text) :
    dropSegments done.length (done ++ names) = names := by
  induction done with
  | nil => cases names <;> rfl
  | cons name done ih =>
    obtain ⟨first, rest⟩ := List.forall_mem_cons.1 plain
    rw [List.length_cons, List.cons_append, dropSegments, first.isSilent, if_neg Bool.false_ne_true, ih rest]

theorem trimSilent_names (plain : ∀ name ∈ names, IsName name) : trimSilent names = names := by
  have loud : ∀ name ∈ names, isSilent name = false := fun name mem => (plain name mem).isSilent
  have keep : ∀ names : List Text, (∀ name ∈ names, isSilent name = false) → names.dropWhile isSilent = names := by
    intro names loud
    cases names with
    | nil => rfl
    | cons name names => rw [List.dropWhile_cons_of_neg (by simp [loud name List.mem_cons_self])]
  rw [trimSilent, keep names loud, keep names.reverse fun name mem => loud name (List.mem_reverse.1 mem),
    List.reverse_reverse]

/-- **The rest of a path below a directory** are the further names. -/
theorem dropStart?_ofNames (plain : ∀ name ∈ done, IsName name) (plain' : ∀ name ∈ names, IsName name) :
    (ofNames (done ++ names)).dropStart? (ofNames done) = some ⟨Text.join "/" names⟩ := by
  have all : ∀ name ∈ done ++ names, IsName name := List.forall_mem_append.2 ⟨plain, plain'⟩
  have starts : (ofNames (done ++ names)).startsWith (ofNames done) := by
    rw [startsWith, components_ofNames plain, components_ofNames all, List.map_append, List.isPrefixOf_iff_prefix]
    exact List.cons_prefix_cons.2 ⟨rfl, List.prefix_append _ _⟩
  rw [dropStart?, if_pos starts, components_ofNames plain]
  simp only [List.length_map]
  by_cases none : done ++ names = []
  · obtain ⟨rfl, rfl⟩ := List.append_eq_nil_iff.1 none
    rfl
  · rw [text_ofNames_slashed all none, splitOn_slashed all none, dropSegments_append plain, trimSilent_names plain']

end Names

/-! ## Letters -/

/-- The characters of a text but for its slashes. -/
def letters (t : Text) : Text := t.filter fun c => c != '/'

theorem letters_append (s t : Text) : letters (s ++ t) = letters s ++ letters t := List.filter_append s t

theorem letters_of_not_mem {t : Text} (clear : '/' ∉ t) : letters t = t := by
  refine List.filter_eq_self.2 fun c mem => ?_
  rw [bne_iff_ne]
  rintro rfl
  exact clear mem

theorem letters_ofNames {names : List Text} (plain : ∀ name ∈ names, IsName name) :
    letters (ofNames names).text = names.flatten := by
  by_cases none : names = []
  · rw [none]
    rfl
  · rw [text_ofNames_slashed plain none]
    clear none
    induction names with
    | nil => rfl
    | cons name names ih =>
      obtain ⟨first, rest⟩ := List.forall_mem_cons.1 plain
      have split : slashed (name :: names) = '/' :: (name ++ slashed names) := by simp [slashed]
      have skip : letters ('/' :: (name ++ slashed names)) = letters (name ++ slashed names) := rfl
      rw [split, skip, letters_append, letters_of_not_mem first.2, ih rest, List.flatten_cons]

theorem letters_join_names {names : List Text} (plain : ∀ name ∈ names, IsName name) :
    letters (Text.join "/" names) = names.flatten := by
  by_cases none : names = []
  · rw [none]
    rfl
  · have skip : letters (Text.join "/" names) = letters ('/' :: Text.join "/" names) := rfl
    rw [skip, ← slashed_eq_cons_join none, ← text_ofNames_slashed plain none, letters_ofNames plain]

/-- Going on from a directory adds letters at most. -/
theorem letters_join_sublist (d x : Path) : (letters (d.join x).text).Sublist (letters d.text ++ letters x.text) := by
  unfold join
  split
  · exact List.sublist_append_right _ _
  · split
    · rw [letters_append]
    · have skip : letters ('/' :: x.text) = letters x.text := rfl
      rw [letters_append, skip]

/-- What is left of the segments that a path is followed by are some of them. -/
theorem reverse_placeFrom_sublist (done segments : List Text) :
    (FileTree.placeFrom done segments).reverse.Sublist (done.reverse ++ segments) := by
  induction segments generalizing done with
  | nil => simp [FileTree.placeFrom]
  | cons segment rest ih =>
    have fewer : (done.reverse ++ rest).Sublist (done.reverse ++ segment :: rest) :=
      List.Sublist.append_left (List.sublist_cons_self _ _) _
    rw [FileTree.placeFrom]
    split
    · exact (ih done).trans fewer
    · split
      · refine (ih done.tail).trans (List.Sublist.trans ?_ fewer)
        exact List.Sublist.append_right (List.reverse_sublist.2 (List.tail_sublist done)) _
      · simpa using ih (segment :: done)

/-- **Folding dots away drops letters** and brings none in. -/
theorem letters_normalize_sublist {p : Path} (absolute : p.isAbsolute) :
    (letters p.normalize.text).Sublist (letters p.text) := by
  obtain ⟨spelled, plain⟩ := FileTree.normalize_eq_ofNames (FileTree.empty []) absolute
  obtain ⟨t⟩ := p
  cases t with
  | nil => cases absolute
  | cons c body =>
    obtain rfl : c = '/' := by simpa [isAbsolute] using absolute
    have kept : letters ('/' :: body) = (Text.splitOn '/' body).flatten := (Text.flatten_splitOn '/' body).symm
    rw [spelled, letters_ofNames plain, kept]
    exact (reverse_placeFrom_sublist [] (Text.splitOn '/' body)).flatten

end Path

end SolutionGraph
