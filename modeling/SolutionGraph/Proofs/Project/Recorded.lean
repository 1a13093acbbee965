import SolutionGraph.Project.Basic
import SolutionGraph.Project.Items
import SolutionGraph.Proofs.Glob.Search
import SolutionGraph.Proofs.Path.Below
import SolutionGraph.Proofs.Text.Lines

/-!
# Where a recorded path leads

A project keeps the paths of its files as they are on disk, those below its directory relative to it, and reads them back
as it reads a written text (`Project.listedPath`): blanks at the ends are dropped, a backslash is a slash, and dots are
folded away. A path survives this exactly if it is canonical and has no such character (`listedPath_recorded`).

That nothing else survives is seen by the letters: reading back gives none that were not recorded, and a backslash or a
blank at an end is a letter that is lost.
-/

namespace SolutionGraph

/-! ## Texts that are read as they are -/

/-- A text that is read as the path that it spells: it has no backslash, and no blank at either end. -/
def Text.IsVerbatim (t : Text) : Prop := '\\' ∉ t ∧ Text.trim t = t

instance (t : Text) : Decidable t.IsVerbatim := inferInstanceAs (Decidable (_ ∧ _))

namespace Path

variable {t : Text} {d p : Path}

theorem withSlashes_of_isVerbatim (verbatim : t.IsVerbatim) : withSlashes (Text.trim t) = t := by
  rw [verbatim.2, withSlashes]
  refine (List.map_congr_left fun c mem => if_neg ?_).trans (List.map_id t)
  rintro rfl
  exact verbatim.1 mem

/-- Writing slashes for backslashes drops these letters. -/
theorem letters_withSlashes (t : Text) : letters (withSlashes t) = (letters t).filter fun c => c != '\\' := by
  induction t with
  | nil => rfl
  | cons c t ih =>
    have split (c : Char) (t : Text) : letters (c :: t) = letters [c] ++ letters t := letters_append [c] t
    have head : letters (withSlashes [c]) = (letters [c]).filter fun c => c != '\\' := by
      by_cases back : c = '\\'
      · rw [back]
        rfl
      · by_cases slash : c = '/'
        · rw [slash]
          rfl
        · simp [withSlashes, letters, back, slash]
    rw [withSlashes, List.map_cons, ← withSlashes, split, ih, split c t, List.filter_append, ← head]
    rfl

/-- **A text that is read without losing a letter is read as it is.** -/
theorem isVerbatim_of_length_le (kept : (letters t).length ≤ (letters (withSlashes (Text.trim t))).length) :
    t.IsVerbatim := by
  obtain ⟨a, b, whole, blank, blank'⟩ := Text.exists_append_trim t
  have slash : Text.isBlank '/' = false := rfl
  have inner : (letters (withSlashes (Text.trim t))).length ≤ (letters (Text.trim t)).length := by
    rw [letters_withSlashes]
    exact List.length_filter_le _ _
  have sum : (letters t).length = a.length + (letters (Text.trim t)).length + b.length := by
    rw [congrArg letters whole, letters_append, letters_append, letters_of_not_mem (Text.not_mem_of_blank slash blank),
      letters_of_not_mem (Text.not_mem_of_blank slash blank'), List.length_append, List.length_append]
  obtain rfl : a = [] := List.eq_nil_of_length_eq_zero (by omega)
  obtain rfl : b = [] := List.eq_nil_of_length_eq_zero (by omega)
  have same : Text.trim t = t := by simpa using whole.symm
  refine ⟨fun back => ?_, same⟩
  rw [same, letters_withSlashes] at kept
  have all := List.length_filter_eq_length_iff.1 (Nat.le_antisymm (List.length_filter_le _ _) kept)
  have letter : '\\' ∈ letters t := List.mem_filter.2 ⟨back, rfl⟩
  cases all _ letter

/-! ## Recorded paths -/

/-- The letters of a path below a directory are those of the directory and those of what is recorded. -/
theorem letters_of_dropStart? {r : Path} (absolute : p.isAbsolute) (absolute' : d.isAbsolute) (canonical : p.IsCanonical)
    (canonical' : d.IsCanonical) (h : p.dropStart? d = some r) : letters p.text = letters d.text ++ letters r.text := by
  obtain ⟨names, plain, shape, rfl⟩ := canonical.exists_ofNames absolute
  obtain ⟨done, plain', shape', rfl⟩ := canonical'.exists_ofNames absolute'
  have starts : (ofNames names).startsWith (ofNames done) := by
    unfold dropStart? at h
    split at h
    · assumption
    · cases h
  rw [startsWith, shape, shape', List.isPrefixOf_iff_prefix, List.cons_prefix_cons] at starts
  obtain ⟨more, whole⟩ := starts.2
  obtain ⟨done', more', rfl, same, _⟩ := List.map_eq_append_iff.1 whole.symm
  obtain rfl := map_name_inj.1 same
  rw [List.forall_mem_append] at plain
  rw [dropStart?_ofNames plain.1 plain.2, Option.some.injEq] at h
  rw [← h, letters_ofNames (List.forall_mem_append.2 plain), letters_ofNames plain.1, letters_join_names plain.2,
    List.flatten_append]

end Path

namespace Project

section Recording

variable {tree : FileTree} {root f : Path} {p : Project} {included exclude : Text}

/-- What the entries of an item stand for are absolute paths. -/
theorem isAbsolute_of_mem_collectItems {entries : List Text} (absolute : root.isAbsolute)
    (mem : f ∈ collectItems tree root entries) : f.isAbsolute := by
  obtain ⟨entry, _, here⟩ := List.mem_flatMap.1 mem
  have start := Path.isAbsolute_absolutize absolute entry
  simp only at here
  split at here
  · exact Glob.isAbsolute_of_mem_files start here
  · rwa [List.mem_singleton.1 here]

/-- A text that is read as it is leads, from the directory, to what was recorded. -/
theorem listedPath_of_isVerbatim (absolute : p.root.isAbsolute) (absolute' : f.isAbsolute)
    (verbatim : (recorded p.root f).text.IsVerbatim) : p.listedPath (recorded p.root f) = f.normalize := by
  rw [listedPath, Path.absolutize, Path.withSlashes_of_isVerbatim verbatim]
  change (p.root.join (recorded p.root f)).normalize = f.normalize
  cases rest : f.dropStart? p.root with
  | some r =>
    rw [recorded, rest]
    exact Path.normalize_join_of_dropStart? absolute' absolute rest
  | none =>
    rw [recorded, rest, Option.getD_none, Path.join, if_pos (by simp [absolute'])]

/-- **What is read back had no letter to lose.** -/
theorem isVerbatim_of_listedPath_eq (absolute : p.root.isAbsolute) (canonical : p.root.IsCanonical)
    (absolute' : f.isAbsolute) (h : p.listedPath (recorded p.root f) = f) :
    (recorded p.root f).text.IsVerbatim := by
  have canonical' : f.IsCanonical := by
    rw [← h]
    exact Path.isCanonical_normalize _
  refine Path.isVerbatim_of_length_le ?_
  rw [listedPath, Path.absolutize] at h
  generalize read : Path.withSlashes (Text.trim (recorded p.root f).text) = x at h ⊢
  have folded := (Path.letters_normalize_sublist (Path.isAbsolute_join absolute ⟨x⟩)).length_le
  rw [h] at folded
  cases rest : f.dropStart? p.root with
  | some r =>
    have joined : (Path.letters (p.root.join ⟨x⟩).text).length ≤
        (Path.letters p.root.text ++ Path.letters x).length := (Path.letters_join_sublist p.root ⟨x⟩).length_le
    rw [Path.letters_of_dropStart? absolute' absolute canonical' canonical rest, List.length_append] at folded
    rw [List.length_append] at joined
    simp only [recorded, rest, Option.getD_some]
    omega
  | none =>
    -- what lies elsewhere is recorded with its first slash, which is read back as it is
    have start : (⟨x⟩ : Path).isAbsolute := by
      rw [recorded, rest, Option.getD_none] at read
      obtain ⟨t⟩ := f
      cases t with
      | nil => cases absolute'
      | cons c body =>
        obtain rfl : c = '/' := by simpa [Path.isAbsolute] using absolute'
        rw [← read, Text.trim_cons rfl]
        rfl
    rw [Path.join, start, Bool.true_or, if_pos rfl] at folded
    simpa only [recorded, rest, Option.getD_none] using folded

/-- **What is read back of an item's files.** A file that an item names and does not exclude is recorded, and its recorded
path is read back as its path exactly if this is canonical and the recorded text is read as it is. If only the text is, the
canonical path of the file is read back, and a file that a wildcard finds is there. -/
theorem listedPath_recorded (absolute : p.root.isAbsolute) (canonical : p.root.IsCanonical)
    (collected : f ∈ collectItems tree p.root (splitList included))
    (kept : ∀ pattern ∈ exclusions p.root exclude, pattern.matchesText f.text = false) :
    recorded p.root f ∈ expandItems tree p.root included exclude ∧
      (p.listedPath (recorded p.root f) = f ↔ f.IsCanonical ∧ (recorded p.root f).text.IsVerbatim) ∧
      ((recorded p.root f).text.IsVerbatim → p.listedPath (recorded p.root f) = f.normalize ∧
        ∀ entry ∈ splitList included, isWildcard entry → f ∈ Glob.files tree (Path.absolutize p.root entry) →
          tree.isFile (p.listedPath (recorded p.root f))) := by
  have absolute' := isAbsolute_of_mem_collectItems absolute collected
  refine ⟨?_, ⟨fun back => ?_, fun ⟨canonical', verbatim⟩ => ?_⟩, fun verbatim => ?_⟩
  · have stays : ¬ (exclusions p.root exclude).any fun pattern => pattern.matchesText f.text := by
      rw [List.any_eq_true]
      rintro ⟨pattern, mem, matched⟩
      rw [kept pattern mem] at matched
      cases matched
    exact List.mem_map_of_mem (List.mem_filter.2 ⟨collected, by simpa using stays⟩)
  · have canonical' : f.IsCanonical := by
      rw [← back]
      exact Path.isCanonical_normalize _
    exact ⟨canonical', isVerbatim_of_listedPath_eq absolute canonical absolute' back⟩
  · rw [listedPath_of_isVerbatim absolute absolute' verbatim]
    exact canonical'
  · have back := listedPath_of_isVerbatim absolute absolute' verbatim
    refine ⟨back, fun entry _ _ found => ?_⟩
    have file := Glob.isFile_of_mem_files found
    obtain ⟨node, there, _⟩ := FileTree.isDir_eq_false_of_isFile file
    rw [back, FileTree.isFile, (FileTree.get?_normalize absolute' there).1, ← there]
    exact file

end Recording

namespace RecordedSample

/-- A directory with one file. -/
def tree (name : Text) : FileTree := ⟨.dir [("w", .dir [(name, .file [])])], ["w"]⟩

/-- A project in the directory that compiles the file. -/
def project (name : Text) : Project :=
  ⟨⟨List.replicate 32 ⟨5, by decide⟩, rfl⟩, "P", "/w/P.vcxproj", "/w", [name], [], .empty, none, []⟩

end RecordedSample

open RecordedSample in
/-- A file that a wildcard finds, with a name that is read as it is, has its path read back. -/
theorem listedPath_recorded_sample : (project "x.cpp").root.isAbsolute ∧ (project "x.cpp").root.IsCanonical ∧
    (⟨"/w/x.cpp"⟩ : Path) ∈ collectItems (tree "x.cpp") (project "x.cpp").root (splitList "*.cpp") ∧
    recorded (project "x.cpp").root "/w/x.cpp" ∈ expandItems (tree "x.cpp") (project "x.cpp").root "*.cpp" "y.*" ∧
    (project "x.cpp").sourcePaths = [⟨"/w/x.cpp"⟩] := by
  have canonical : Path.normalize (project "x.cpp").root = (project "x.cpp").root := by decide +kernel
  have canonical' : Path.normalize "/w/x.cpp" = "/w/x.cpp" := by decide +kernel
  have collected : (⟨"/w/x.cpp"⟩ : Path) ∈ collectItems (tree "x.cpp") (project "x.cpp").root (splitList "*.cpp") := by
    decide +kernel
  have kept : ∀ pattern ∈ exclusions (project "x.cpp").root "y.*", pattern.matchesText "/w/x.cpp" = false := by
    decide +kernel
  have spelled : recorded (project "x.cpp").root "/w/x.cpp" = "x.cpp" := by decide +kernel
  have verbatim : Text.IsVerbatim "x.cpp" := by decide
  obtain ⟨listed, exact, _⟩ := listedPath_recorded rfl canonical collected kept
  rw [spelled] at exact
  exact ⟨rfl, canonical, collected, listed, congrArg (fun p => [p]) (exact.2 ⟨canonical', verbatim⟩)⟩

open RecordedSample in
/-- **A file with a backslash in its name is lost**: the wildcard finds it and it is recorded, and what is read back is
another path, where no file is. -/
theorem sourcePaths_recorded_ne :
    (⟨"/w/a\\b.cpp"⟩ : Path) ∈ collectItems (tree "a\\b.cpp") (project "a\\b.cpp").root (splitList "*.cpp") ∧
      (tree "a\\b.cpp").isFile "/w/a\\b.cpp" ∧
      expandItems (tree "a\\b.cpp") (project "a\\b.cpp").root "*.cpp" [] = (project "a\\b.cpp").sources ∧
      (project "a\\b.cpp").sourcePaths = [⟨"/w/a/b.cpp"⟩] ∧ ¬ (tree "a\\b.cpp").isFile "/w/a/b.cpp" := by
  decide +kernel

end Project

end SolutionGraph
