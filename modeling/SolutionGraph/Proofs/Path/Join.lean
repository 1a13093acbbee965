import SolutionGraph.Proofs.Path.Normal

/-!
# Going on from a directory

A path that goes on from a directory has the components of the directory, and then its own (`components_join`). Folding dots
away in the directory first changes nothing in the end (`normalize_join_normalize`): a directory can be replaced by its normal
form wherever something is seen from it (`absolutize_normalize`).
-/

namespace SolutionGraph

theorem Text.splitOn_append {separator : Char} (a b : Text) :
    splitOn separator (a ++ separator :: b) = splitOn separator a ++ splitOn separator b := by
  induction a with
  | nil => simp [splitOn]
  | cons c a ih =>
    rw [List.cons_append, splitOn, splitOn, ih]
    split
    · rfl
    · cases pieces : splitOn separator a with
      | nil => exact absurd pieces (splitOn_ne_nil separator a)
      | cons piece pieces => rfl

namespace Path

/-- The components of a path that goes on from another one. -/
def innerComponents (p : Path) : List Component := (Text.splitOn '/' p.text).filterMap innerComponent

theorem components_of_relative {c : Char} {t : Text} (relative : c ≠ '/') {first : Text} {rest : List Text}
    (cut : Text.splitOn '/' (c :: t) = first :: rest) :
    components ⟨c :: t⟩ = (firstComponent first).toList ++ rest.filterMap innerComponent := by
  unfold components
  split
  · rename_i body root
    cases root
    exact absurd rfl relative
  · simp only [cut]

theorem components_append_slash {t : Text} (some : t ≠ []) (x : Text) :
    components ⟨t ++ '/' :: x⟩ = components ⟨t⟩ ++ innerComponents ⟨x⟩ := by
  cases t with
  | nil => exact absurd rfl some
  | cons c t =>
    by_cases root : c = '/'
    · subst root
      simp [components, innerComponents, Text.splitOn_append]
    · obtain ⟨first, rest, cut⟩ := List.exists_cons_of_ne_nil (Text.splitOn_ne_nil '/' (c :: t))
      have cut' : Text.splitOn '/' (c :: (t ++ '/' :: x)) = first :: (rest ++ Text.splitOn '/' x) := by
        rw [← List.cons_append, Text.splitOn_append, cut, List.cons_append]
      rw [List.cons_append, components_of_relative root cut, components_of_relative root cut', List.filterMap_append,
        List.append_assoc]
      rfl

/-- **The components of a path that goes on** from a directory are those of both. -/
theorem components_join {d x : Path} (relative : x.isAbsolute = false) (some : d.text ≠ []) :
    (d.join x).components = d.components ++ x.innerComponents := by
  obtain ⟨t⟩ := d
  have notEmpty : t.isEmpty = false := by simpa using some
  rw [join, relative, notEmpty, Bool.or_self, if_neg Bool.false_ne_true]
  split
  · -- the slash at the end of the directory is the one that divides it from the path
    rename_i slash
    obtain ⟨init, rfl⟩ := List.getLast?_eq_some_iff.1 slash
    rw [List.append_assoc, List.singleton_append]
    cases init with
    | nil => rfl
    | cons c init =>
      rw [components_append_slash (by simp), components_append_slash (by simp)]
      simp [innerComponents, Text.splitOn, innerComponent, isSilent]
  · exact components_append_slash some x.text

/-- A dot at the start of a path does not count when it is folded. -/
theorem foldl_fold_innerComponents {x : Path} (relative : x.isAbsolute = false) (done : List Component) :
    x.innerComponents.foldl fold done = x.components.foldl fold done := by
  obtain ⟨t⟩ := x
  cases t with
  | nil => rfl
  | cons c t =>
    have inside : c ≠ '/' := by
      rintro rfl
      cases relative
    obtain ⟨first, rest, cut⟩ := List.exists_cons_of_ne_nil (Text.splitOn_ne_nil '/' (c :: t))
    rw [components_of_relative inside cut, innerComponents]
    simp only [cut]
    by_cases dot : first = "."
    · subst dot
      rfl
    · rw [firstComponent, if_neg dot]
      cases piece : innerComponent first <;> simp [piece]

theorem foldl_fold_join {d x : Path} (relative : x.isAbsolute = false) :
    (d.join x).components.foldl fold [] = x.components.foldl fold (d.components.foldl fold []) := by
  by_cases empty : d.text = []
  · obtain ⟨t⟩ := d
    subst empty
    have same : Path.join ⟨[]⟩ x = x := by simp [join]
    rw [same]
    rfl
  · rw [components_join relative empty, List.foldl_append, foldl_fold_innerComponents relative]

/-- **A directory can be normalized before** a path goes on from it. -/
theorem normalize_join_normalize (d x : Path) : (d.normalize.join x).normalize = (d.join x).normalize := by
  cases relative : x.isAbsolute with
  | true =>
    have anew (base : Path) : base.join x = x := by simp [join, relative]
    rw [anew, anew]
  | false =>
    have folded : d.normalize.components.foldl fold [] = d.components.foldl fold [] := by
      rw [components_normalize, normalComponents, (isFolded_components d).foldl_reverse]
    have same : (d.normalize.join x).normalComponents = (d.join x).normalComponents := by
      rw [normalComponents, normalComponents, foldl_fold_join relative, foldl_fold_join relative, folded]
    exact congrArg ofComponents same

theorem absolutize_normalize (d : Path) (raw : Text) : absolutize d.normalize raw = absolutize d raw :=
  normalize_join_normalize d _

end Path

end SolutionGraph
