import SolutionGraph.Project.Items
import SolutionGraph.Proofs.Glob.Literal
import SolutionGraph.Proofs.Text.Lines

/-!
# Items of a project at another place

The same directory at two places has the same items, as they are recorded, as long as the paths of the places have no
metacharacters: an item that stays inside the directory is then read as the literal path of the place with a pattern behind
it (`expandItems_relocated`). The pattern of an item is all of its absolute path, though, so a bracket in the name of the
directory is read as a class, and the files in it are not found (`expandItems_bracket_ne`).

* **entries**: an entry that stays inside leads to the place and further names (`Path.absolutize_ofNames`);
* **twins**: paths that lead on from the places by the same names have the same there, and a search keeps to them
  (`keeps_twin`, `forall₂_collectItems`);
* **exclusions**: twins are excluded alike (`excludes_eq`), and are recorded alike.
-/

namespace SolutionGraph

/-! ## Entries that stay inside -/

namespace Path

/-- The steps that a written path names, each a name or `..`. -/
def steps (entry : Text) : List Text :=
  (Text.splitOn '/' (withSlashes (Text.trim entry))).filter fun segment => !isSilent segment

/-- A written path that stays inside the directory that it is seen from: it is relative and has no `..`. -/
structure IsInner (entry : Text) : Prop where
  relative : (⟨withSlashes (Text.trim entry)⟩ : Path).isAbsolute = false
  down : ∀ step ∈ steps entry, step ≠ ".."

instance : DecidablePred IsInner := fun entry =>
  decidable_of_iff ((⟨withSlashes (Text.trim entry)⟩ : Path).isAbsolute = false ∧ ∀ step ∈ steps entry, step ≠ "..")
    ⟨fun h => ⟨h.1, h.2⟩, fun h => ⟨h.relative, h.down⟩⟩

variable {entry : Text} {done names : List Text}

theorem IsInner.isName_of_mem_steps (inner : IsInner entry) {name : Text} (mem : name ∈ steps entry) : IsName name := by
  obtain ⟨segment, loud⟩ := List.mem_filter.1 mem
  refine ⟨?_, Text.not_mem_of_mem_splitOn segment⟩
  rw [innerComponent, if_neg (by simpa using loud), if_neg (inner.down name mem)]

theorem IsInner.innerComponents_eq (inner : IsInner entry) :
    innerComponents ⟨withSlashes (Text.trim entry)⟩ = (steps entry).map .name := by
  have isName := fun name (mem : name ∈ steps entry) => inner.isName_of_mem_steps mem
  rw [innerComponents]
  unfold steps at isName ⊢
  generalize Text.splitOn '/' (withSlashes (Text.trim entry)) = segments at isName ⊢
  induction segments with
  | nil => rfl
  | cons segment rest ih =>
    by_cases silent : isSilent segment
    · rw [List.filterMap_cons_none (innerComponent_of_isSilent silent)]
      rw [List.filter_cons_of_neg (by simp [silent])] at isName ⊢
      exact ih isName
    · rw [List.filter_cons_of_pos (by simp [silent])] at isName ⊢
      obtain ⟨first, others⟩ := List.forall_mem_cons.1 isName
      rw [List.filterMap_cons_some first.innerComponent, ih others, List.map_cons]

/-- **An entry that stays inside** leads from a directory on by its steps. -/
theorem absolutize_ofNames (inner : IsInner entry) (plain : ∀ name ∈ done, IsName name) :
    absolutize (ofNames done) entry = ofNames (done ++ steps entry) := by
  have plain' : ∀ name ∈ done ++ steps entry, IsName name :=
    List.forall_mem_append.2 ⟨plain, fun _ mem => inner.isName_of_mem_steps mem⟩
  have start : (ofNames done).text ≠ [] := by
    rw [text_ofNames plain]
    exact List.cons_ne_nil _ _
  have shape : ((ofNames done).join ⟨withSlashes (Text.trim entry)⟩).components =
      (ofNames (done ++ steps entry)).components := by
    rw [components_join inner.relative start, inner.innerComponents_eq, components_ofNames plain,
      components_ofNames plain', List.map_append, List.cons_append]
  calc absolutize (ofNames done) entry = (ofNames (done ++ steps entry)).normalize := by
        rw [absolutize, normalize, normalComponents, shape, ← normalComponents, ← normalize]
    _ = ofNames (done ++ steps entry) := isCanonical_ofNames plain'

/-- A wildcard names a step. -/
theorem steps_ne_nil_of_isWildcard (wild : isWildcard entry) : steps entry ≠ [] := by
  intro none
  obtain ⟨c, mem, star⟩ := List.any_eq_true.1 wild
  have star : c = '*' ∨ c = '?' := by simpa using star
  obtain ⟨a, b, whole, blank, blank'⟩ := Text.exists_append_trim entry
  have solid : Text.isBlank c = false := by rcases star with rfl | rfl <;> rfl
  have inside : c ∈ Text.trim entry := by
    rw [whole, List.mem_append, List.mem_append] at mem
    rcases mem with (before | here) | after
    · exact absurd before (Text.not_mem_of_blank solid blank)
    · exact here
    · exact absurd after (Text.not_mem_of_blank solid blank')
  have written : c ∈ withSlashes (Text.trim entry) := by
    refine List.mem_map.2 ⟨c, inside, if_neg ?_⟩
    rcases star with rfl | rfl <;> decide
  -- so some segment has the character, and this segment is not silent
  have letter : c ∈ (Text.splitOn '/' (withSlashes (Text.trim entry))).flatten := by
    rw [Text.flatten_splitOn]
    refine List.mem_filter.2 ⟨written, ?_⟩
    rcases star with rfl | rfl <;> rfl
  obtain ⟨segment, cut, here⟩ := List.mem_flatten.1 letter
  have loud : isSilent segment = false := by
    rw [isSilent, Bool.or_eq_false_iff]
    refine ⟨List.isEmpty_eq_false_iff.2 (List.ne_nil_of_mem here), beq_false_of_ne ?_⟩
    rintro rfl
    rcases star with rfl | rfl <;> simp at here
  have step : segment ∈ steps entry := List.mem_filter.2 ⟨cut, by rw [loud]; rfl⟩
  rw [none] at step
  cases step

end Path

/-! ## Twins -/

/-- A directory of a tree, at its canonical absolute path. -/
structure FileTree.IsDirectoryAt (tree : FileTree) (root : Path) (node : FileNode) : Prop where
  absolute : root.isAbsolute
  canonical : root.IsCanonical
  there : tree.get? root = some node
  isDir : node.isDir

/-- A node that names lead to from the root of a tree. -/
structure FileTree.IsAt (tree : FileTree) (done : List Text) (node : FileNode) : Prop where
  plain : ∀ name ∈ done, Path.IsName name
  isDir : tree.root.isDir
  there : tree.root.descend? done = some node

theorem FileTree.IsAt.get?_eq {tree : FileTree} {node : FileNode} {done names : List Text} (here : tree.IsAt done node)
    (plain : ∀ name ∈ names, Path.IsName name) : tree.get? (Path.ofNames (done ++ names)) = node.descend? names := by
  rw [get?_ofNames here.isDir (List.forall_mem_append.2 ⟨here.plain, plain⟩), FileNode.descend?_append, here.there,
    Option.bind_some]

theorem FileTree.IsDirectoryAt.exists_isAt {tree : FileTree} {root : Path} {node : FileNode}
    (h : tree.IsDirectoryAt root node) : ∃ done, root = Path.ofNames done ∧ tree.IsAt done node := by
  obtain ⟨done, plain, _, rfl⟩ := h.canonical.exists_ofNames h.absolute
  have isDir := FileTree.isDir_root h.there
  exact ⟨done, rfl, plain, isDir, by rw [← FileTree.get?_ofNames isDir plain, h.there]⟩

theorem FileNode.sizeOf_lt_of_child? {node child : FileNode} {name : Text} (h : node.child? name = some child) :
    sizeOf child < sizeOf node := by
  have entry := mem_of_child?_eq_some h
  cases node with
  | file | unreadable => cases entry
  | dir entries =>
    have smaller := List.sizeOf_lt_of_mem entry
    simp only [Prod.mk.sizeOf_spec, FileNode.entries, FileNode.dir.sizeOf_spec] at smaller ⊢
    omega

theorem FileNode.sizeOf_le_of_descend? {node last : FileNode} {names : List Text} (h : node.descend? names = some last) :
    sizeOf last ≤ sizeOf node := by
  induction names generalizing node with
  | nil =>
    cases h
    exact Nat.le_refl _
  | cons name names ih =>
    obtain ⟨child, found, below⟩ := Option.bind_eq_some_iff.1 h
    exact (ih below).trans (sizeOf_lt_of_child? found).le

/-- Names lead back to where they start only if there are none. -/
theorem FileNode.eq_nil_of_descend?_self {node : FileNode} {names : List Text} (h : node.descend? names = some node) :
    names = [] := by
  cases names with
  | nil => rfl
  | cons name names =>
    obtain ⟨child, found, below⟩ := Option.bind_eq_some_iff.1 h
    have smaller := sizeOf_lt_of_child? found
    have smaller' := sizeOf_le_of_descend? below
    omega

namespace Project

section Places

variable {tree tree' : FileTree} {node : FileNode} {done done' : List Text} {p p' : Path}

/-- Paths that lead on by the same names from two directories. -/
def Twin (done done' : List Text) (p p' : Path) : Prop :=
  ∃ names, (∀ name ∈ names, Path.IsName name) ∧ p = Path.ofNames (done ++ names) ∧ p' = Path.ofNames (done' ++ names)

theorem Twin.join {name : Text} (twin : Twin done done' p p') (isName : Path.IsName name) :
    Twin done done' (p.join ⟨name⟩) (p'.join ⟨name⟩) := by
  obtain ⟨names, plain, rfl, rfl⟩ := twin
  refine ⟨names ++ [name], List.forall_mem_append.2 ⟨plain, List.forall_mem_singleton.2 isName⟩, ?_, ?_⟩
  all_goals rw [← Path.ofNames_concat, List.append_assoc]

theorem Twin.isAbsolute (here : tree.IsAt done node) (here' : tree'.IsAt done' node) (twin : Twin done done' p p') :
    p.isAbsolute ∧ p'.isAbsolute := by
  obtain ⟨names, plain, rfl, rfl⟩ := twin
  exact ⟨Path.isAbsolute_ofNames (List.forall_mem_append.2 ⟨here.plain, plain⟩),
    Path.isAbsolute_ofNames (List.forall_mem_append.2 ⟨here'.plain, plain⟩)⟩

/-- **Twins have the same there, and so on below.** -/
theorem keeps_twin (here : tree.IsAt done node) (here' : tree'.IsAt done' node) (named : node.AllNames Path.IsName) :
    Glob.Keeps Path.IsName tree tree' (Twin done done') where
  same := by
    rintro _ _ ⟨names, plain, rfl, rfl⟩
    rw [here.get?_eq plain, here'.get?_eq plain]
  allNames := by
    rintro _ _ child ⟨names, plain, rfl, rfl⟩ there
    rw [here.get?_eq plain] at there
    exact (named.of_descend? there).2
  step twin isName := by
    obtain ⟨absolute, absolute'⟩ := twin.isAbsolute here here'
    rw [Glob.step_of_isAbsolute absolute, Glob.step_of_isAbsolute absolute']
    exact twin.join isName
  join := Twin.join

/-! ## Items -/

/-- Twins, which are the directories themselves only if both of these or none is the root of its tree. -/
def LevelTwin (done done' : List Text) (p p' : Path) : Prop :=
  (p = Path.ofNames done → (done = [] ↔ done' = [])) ∧ Twin done done' p p'

/-- The same directory at two places, whose paths are literal text in front of a step. -/
structure Moved (tree tree' : FileTree) (done done' : List Text) (node : FileNode) : Prop where
  here : tree.IsAt done node
  here' : tree'.IsAt done' node
  isDir : node.isDir
  named : node.AllNames Path.IsName
  literals : ∀ c ∈ (Path.ofNames done).text, Glob.isLiteral c
  literals' : ∀ c ∈ (Path.ofNames done').text, Glob.isLiteral c

theorem isLiteral_slashed (plain : ∀ name ∈ done, Path.IsName name)
    (literals : ∀ c ∈ (Path.ofNames done).text, Glob.isLiteral c) : ∀ c ∈ Path.slashed done, Glob.isLiteral c := by
  by_cases none : done = []
  · rw [none]
    nofun
  · rwa [← Path.text_ofNames_slashed plain none]

/-- **What a wildcard finds** in the two directories are twins. -/
theorem forall₂_files (moved : Moved tree tree' done done' node) {names : List Text} (proper : names ≠ [])
    (plain : ∀ name ∈ names, Path.IsName name) (stays : ∀ name ∈ names, Glob.climbs name = false) :
    List.Forall₂ (LevelTwin done done') (Glob.files tree (Path.ofNames (done ++ names)))
      (Glob.files tree' (Path.ofNames (done' ++ names))) := by
  obtain ⟨here, here', isDir, named, literals, literals'⟩ := moved
  have keeps := keeps_twin here here' named
  have start : Twin done done' (Path.ofNames done) (Path.ofNames done') := ⟨[], nofun, by simp, by simp⟩
  have there : tree.get? (Path.ofNames done) = some node := by
    rw [FileTree.get?_ofNames here.isDir here.plain, here.there]
  have there' : tree'.get? (Path.ofNames done') = some node := by
    rw [FileTree.get?_ofNames here'.isDir here'.plain, here'.there]
  have plain' := List.forall_mem_append.2 ⟨here.plain, plain⟩
  have plain'' := List.forall_mem_append.2 ⟨here'.plain, plain⟩
  have found : List.Forall₂ (Twin done done') (Glob.expand tree (Path.ofNames (done ++ names)))
      (Glob.expand tree' (Path.ofNames (done' ++ names))) := by
    rw [Glob.expand_ofNames plain' proper (isLiteral_slashed here.plain literals) there,
      Glob.expand_ofNames plain'' proper (isLiteral_slashed here'.plain literals') there']
    split
    · rename_i ps _ patterns
      refine Glob.lookUp_inStep keeps (fun p mem name asks => ?_) named start
      obtain ⟨segment, listed, reads⟩ := Glob.exists_read_of_mem patterns (Glob.mem_of_mem_collapseDeep mem)
      exact Glob.isName_of_asksFor (plain segment listed) (stays segment listed) reads asks
    · exact .nil
  have files : List.Forall₂ (Twin done done') (Glob.files tree (Path.ofNames (done ++ names)))
      (Glob.files tree' (Path.ofNames (done' ++ names))) :=
    List.rel_filter (fun _ _ twin => Bool.eq_iff_iff.1 (keeps.isFile_eq twin)) found
  -- the directory itself is no file
  refine (List.forall₂_and_left _ _).2 ⟨fun p mem same => ?_, files⟩
  obtain ⟨child, at', noDir⟩ := FileTree.isDir_eq_false_of_isFile (Glob.isFile_of_mem_files mem)
  rw [same, there] at at'
  cases at'
  rw [isDir] at noDir
  cases noDir

/-- **What the entries of an item stand for** in the two directories are twins. -/
theorem forall₂_collectItems (moved : Moved tree tree' done done' node) {entries : List Text}
    (inner : ∀ entry ∈ entries, Path.IsInner entry)
    (stays : ∀ entry ∈ entries, isWildcard entry → ∀ step ∈ Path.steps entry, Glob.climbs step = false)
    (level : ∀ entry ∈ entries, Path.steps entry = [] → (done = [] ↔ done' = [])) :
    List.Forall₂ (LevelTwin done done') (collectItems tree (Path.ofNames done) entries)
      (collectItems tree' (Path.ofNames done') entries) := by
  refine Glob.forall₂_flatMap fun entry mem => ?_
  have isName : ∀ step ∈ Path.steps entry, Path.IsName step := fun _ named => (inner entry mem).isName_of_mem_steps named
  simp only [Path.absolutize_ofNames (inner entry mem) moved.here.plain,
    Path.absolutize_ofNames (inner entry mem) moved.here'.plain]
  split
  · rename_i wild
    exact forall₂_files moved (Path.steps_ne_nil_of_isWildcard wild) isName (stays entry mem wild)
  · refine .cons ⟨fun same => ?_, _, isName, rfl, rfl⟩ .nil
    have whole := Path.ofNames_inj (List.forall_mem_append.2 ⟨moved.here.plain, isName⟩) moved.here.plain same
    exact level entry mem (List.append_right_eq_self.1 whole)

/-! ## Exclusions -/

/-- Whether an exclusion applies to a path. -/
def excludes (root : Path) (raw path : Text) : Bool :=
  (Glob.read (Path.absolutize root raw).text).any fun pattern => pattern.matchesText path

theorem any_exclusions (root : Path) (exclude path : Text) :
    ((exclusions root exclude).any fun pattern => pattern.matchesText path) =
      (splitList exclude).any fun raw => excludes root raw path := by
  rw [exclusions, List.any_filterMap]
  rfl

section Excluding

variable {raw : Text} {names : List Text}

/-- An exclusion that names no step excludes the directory only. -/
theorem excludes_directory (plain : ∀ name ∈ done ++ names, Path.IsName name)
    (literals : ∀ c ∈ (Path.ofNames done).text, Glob.isLiteral c) (inner : Path.IsInner raw) (none : Path.steps raw = []) :
    excludes (Path.ofNames done) raw (Path.ofNames (done ++ names)).text = names.isEmpty := by
  have before := (List.forall_mem_append.1 plain).1
  rw [excludes, Path.absolutize_ofNames inner before, none, List.append_nil, Glob.read, Glob.readFrom_literal literals,
    Option.any_some, Glob.matchesText_literal, Bool.eq_iff_iff, beq_iff_eq, List.isEmpty_iff]
  refine ⟨fun same => ?_, fun same => by rw [same, List.append_nil]⟩
  exact List.append_right_eq_self.1 (Path.ofNames_inj plain before (congrArg Path.mk same))

/-- The pattern of an exclusion with steps is the path of the directory, with a pattern for the steps behind it. -/
theorem excludes_steps (plain : ∀ name ∈ done, Path.IsName name)
    (literals : ∀ c ∈ (Path.ofNames done).text, Glob.isLiteral c) (inner : Path.IsInner raw) (some : Path.steps raw ≠ [])
    (path : Text) : excludes (Path.ofNames done) raw path = (Glob.read (Text.join "/" (Path.steps raw))).any fun pattern =>
      Glob.Pattern.matchesText (Glob.literal (Path.slashed done ++ ['/']) ++ pattern) path := by
  have plain' : ∀ name ∈ done ++ Path.steps raw, Path.IsName name :=
    List.forall_mem_append.2 ⟨plain, fun _ mem => inner.isName_of_mem_steps mem⟩
  rw [excludes, Path.absolutize_ofNames inner plain,
    Path.text_ofNames_slashed plain' (List.append_ne_nil_of_right_ne_nil _ some), Path.slashed_append,
    Path.slashed_eq_cons_join some, Glob.read, Glob.readFrom_append_slash (isLiteral_slashed plain literals),
    Option.any_map]

/-- The steps of an exclusion are matched against the further names. -/
theorem excludes_names (plain : ∀ name ∈ done ++ names, Path.IsName name)
    (literals : ∀ c ∈ (Path.ofNames done).text, Glob.isLiteral c) (inner : Path.IsInner raw) (some : Path.steps raw ≠ [])
    (some' : names ≠ []) : excludes (Path.ofNames done) raw (Path.ofNames (done ++ names)).text =
      (Glob.read (Text.join "/" (Path.steps raw))).any fun pattern => pattern.matchesText (Text.join "/" names) := by
  have text : (Path.ofNames (done ++ names)).text = (Path.slashed done ++ ['/']) ++ Text.join "/" names := by
    rw [Path.text_ofNames_slashed plain (List.append_ne_nil_of_right_ne_nil _ some'), Path.slashed_append,
      Path.slashed_eq_cons_join some', List.append_assoc]
    rfl
  rw [excludes_steps (List.forall_mem_append.1 plain).1 literals inner some, text]
  simp only [Glob.matchesText_literal_append]

/-- An exclusion with steps spares a directory that is not the root. -/
theorem excludes_self (plain : ∀ name ∈ done, Path.IsName name)
    (literals : ∀ c ∈ (Path.ofNames done).text, Glob.isLiteral c) (inner : Path.IsInner raw) (some : Path.steps raw ≠ [])
    (some' : done ≠ []) : excludes (Path.ofNames done) raw (Path.ofNames done).text = false := by
  rw [excludes_steps plain literals inner some, Path.text_ofNames_slashed plain some', Bool.eq_false_iff]
  intro matched
  obtain ⟨_, here⟩ := (Option.any_eq_true_iff_get _ _).1 matched
  have long := (Glob.prefix_of_matchesText here).length_le
  rw [List.length_append, List.length_singleton] at long
  omega

/-- **Twins are excluded alike.** -/
theorem excludes_eq (moved : Moved tree tree' done done' node) (inner : Path.IsInner raw)
    (twin : LevelTwin done done' p p') :
    excludes (Path.ofNames done) raw p.text = excludes (Path.ofNames done') raw p'.text := by
  obtain ⟨level, names, plain, rfl, rfl⟩ := twin
  have plain' := List.forall_mem_append.2 ⟨moved.here.plain, plain⟩
  have plain'' := List.forall_mem_append.2 ⟨moved.here'.plain, plain⟩
  by_cases none : Path.steps raw = []
  · rw [excludes_directory plain' moved.literals inner none, excludes_directory plain'' moved.literals' inner none]
  · by_cases alone : names = []
    · subst alone
      rw [List.append_nil, List.append_nil]
      have level := level (by rw [List.append_nil])
      by_cases top : done = []
      · rw [top, level.1 top]
      · have top' : done' ≠ [] := fun top' => top (level.2 top')
        rw [excludes_self moved.here.plain moved.literals inner none top,
          excludes_self moved.here'.plain moved.literals' inner none top']
    · rw [excludes_names plain' moved.literals inner none alone, excludes_names plain'' moved.literals' inner none alone]

end Excluding

/-! ## Relocation -/

theorem Twin.recorded_eq (plain : ∀ name ∈ done, Path.IsName name) (plain' : ∀ name ∈ done', Path.IsName name)
    (twin : Twin done done' p p') : recorded (Path.ofNames done) p = recorded (Path.ofNames done') p' := by
  obtain ⟨names, inside, rfl, rfl⟩ := twin
  rw [recorded, Path.dropStart?_ofNames plain inside, recorded, Path.dropStart?_ofNames plain' inside]
  rfl

/-- In one tree a directory that is also at another place is not the root. -/
theorem level_of_isAt (here : tree.IsAt done node) (here' : tree.IsAt done' node) : done = [] ↔ done' = [] := by
  have alone {done done' : List Text} (here : tree.IsAt done node) (here' : tree.IsAt done' node) (top : done = []) :
      done' = [] := by
    subst top
    cases here.there
    exact FileNode.eq_nil_of_descend?_self here'.there
  exact ⟨alone here here', alone here' here⟩

/-- **The same directory at two places has the same items**, if the paths of the places have no metacharacters and the items
and exclusions stay inside. In two trees, an item that names the directory itself needs that both or none is the root. -/
theorem expandItems_relocated {root root' : Path} {included exclude : Text} (placed : tree.IsDirectoryAt root node)
    (placed' : tree'.IsDirectoryAt root' node) (named : node.AllNames Path.IsName)
    (literals : ∀ c ∈ root.text, Glob.isLiteral c) (literals' : ∀ c ∈ root'.text, Glob.isLiteral c)
    (inner : ∀ entry ∈ splitList included ++ splitList exclude, Path.IsInner entry)
    (stays : ∀ entry ∈ splitList included, isWildcard entry → ∀ step ∈ Path.steps entry, Glob.climbs step = false)
    (level : tree = tree' ∨ ∀ entry ∈ splitList included, Path.steps entry = [] → (root = "/" ↔ root' = "/")) :
    expandItems tree root included exclude = expandItems tree' root' included exclude := by
  obtain ⟨done, rfl, here⟩ := placed.exists_isAt
  obtain ⟨done', rfl, here'⟩ := placed'.exists_isAt
  have moved : Moved tree tree' done done' node := ⟨here, here', placed.isDir, named, literals, literals'⟩
  obtain ⟨inside, inside'⟩ := List.forall_mem_append.1 inner
  have top {done : List Text} (plain : ∀ name ∈ done, Path.IsName name) : Path.ofNames done = "/" ↔ done = [] :=
    ⟨fun same => Path.ofNames_inj plain nofun same, fun none => by rw [none]; rfl⟩
  have level' : ∀ entry ∈ splitList included, Path.steps entry = [] → (done = [] ↔ done' = []) := by
    intro entry mem none
    rcases level with rfl | level
    · exact level_of_isAt here here'
    · rw [← top here.plain, level entry mem none, top here'.plain]
  have collected := forall₂_collectItems moved inside stays level'
  have kept {p p' : Path} (twin : LevelTwin done done' p p') :
      ((exclusions (Path.ofNames done) exclude).any fun pattern => pattern.matchesText p.text) =
        (exclusions (Path.ofNames done') exclude).any fun pattern => pattern.matchesText p'.text := by
    rw [any_exclusions, any_exclusions, Bool.eq_iff_iff, List.any_eq_true, List.any_eq_true]
    refine exists_congr fun raw => and_congr_right fun mem => ?_
    rw [excludes_eq moved (inside' raw mem) twin]
  unfold expandItems
  rw [← List.forall₂_eq_eq_eq]
  refine List.rel_map (fun _ _ twin => twin.2.recorded_eq here.plain here'.plain)
    (List.rel_filter (fun p p' twin => ?_) collected)
  simp only [kept twin]

end Places

namespace RelocationSample

/-- A directory with a source file. -/
def node : FileNode := .dir [("x.cpp", .file [])]

/-- A tree with the directory at two places. -/
def tree (name : Text) : FileTree := ⟨.dir [("v", .dir [("ab", node)]), ("w", .dir [(name, node)])], []⟩

theorem isDirectoryAt (name : Text) : (tree name).IsDirectoryAt "/v/ab" node := by
  have canonical : Path.normalize "/v/ab" = "/v/ab" := by decide +kernel
  exact ⟨rfl, canonical, rfl, rfl⟩

theorem isDirectoryAt_plain : (tree "x").IsDirectoryAt "/w/x" node := by
  have canonical : Path.normalize "/w/x" = "/w/x" := by decide +kernel
  exact ⟨rfl, canonical, rfl, rfl⟩

theorem isDirectoryAt_bracket : (tree "a[b]").IsDirectoryAt "/w/a[b]" node := by
  have canonical : Path.normalize "/w/a[b]" = "/w/a[b]" := by decide +kernel
  exact ⟨rfl, canonical, rfl, rfl⟩

theorem allNames : node.AllNames Path.IsName := by
  have isName : Path.IsName "x.cpp" := ⟨rfl, by decide⟩
  simpa [FileNode.AllNames, node, FileNode.descendants, FileNode.descendEntries, FileNode.sortedEntries] using isName

end RelocationSample

open RelocationSample in
/-- A directory at two places has the same items: what a wildcard finds, and of two named files the one that is not
excluded. -/
theorem expandItems_relocated_sample : (tree "x").IsDirectoryAt "/v/ab" node ∧ (tree "x").IsDirectoryAt "/w/x" node ∧
    expandItems (tree "x") "/v/ab" "*.cpp;src\\m.c;src\\n.c" "src\\n.*" = [⟨"x.cpp"⟩, ⟨"src/m.c"⟩] ∧
    expandItems (tree "x") "/w/x" "*.cpp;src\\m.c;src\\n.c" "src\\n.*" = [⟨"x.cpp"⟩, ⟨"src/m.c"⟩] := by
  have literals : ∀ c ∈ "/v/ab".toList, Glob.isLiteral c := List.all_eq_true.1 (by decide)
  have literals' : ∀ c ∈ "/w/x".toList, Glob.isLiteral c := List.all_eq_true.1 (by decide)
  have inner : ∀ entry ∈ splitList "*.cpp;src\\m.c;src\\n.c" ++ splitList "src\\n.*", Path.IsInner entry := by
    decide +kernel
  have stays : ∀ entry ∈ splitList "*.cpp;src\\m.c;src\\n.c", isWildcard entry → ∀ step ∈ Path.steps entry,
      Glob.climbs step = false := by
    decide +kernel
  have found : expandItems (tree "x") "/v/ab" "*.cpp;src\\m.c;src\\n.c" "src\\n.*" = [⟨"x.cpp"⟩, ⟨"src/m.c"⟩] := by
    decide +kernel
  have same := expandItems_relocated (isDirectoryAt "x") isDirectoryAt_plain allNames literals literals' inner stays
    (.inl rfl)
  exact ⟨isDirectoryAt "x", isDirectoryAt_plain, found, same ▸ found⟩

open RelocationSample in
/-- **A bracket in the name of the directory is read as a class**: the directory has the same file at both places, and its
wildcard finds the file at one of them only. -/
theorem expandItems_bracket_ne :
    (tree "a[b]").IsDirectoryAt "/v/ab" node ∧ (tree "a[b]").IsDirectoryAt "/w/a[b]" node ∧ node.AllNames Path.IsName ∧
      Path.IsInner "*.cpp" ∧ Glob.climbs "*.cpp" = false ∧
      expandItems (tree "a[b]") "/v/ab" "*.cpp" [] = [⟨"x.cpp"⟩] ∧ expandItems (tree "a[b]") "/w/a[b]" "*.cpp" [] = [] :=
  ⟨isDirectoryAt _, isDirectoryAt_bracket, allNames, by decide +kernel, by decide +kernel, by decide +kernel,
    by decide +kernel⟩

end Project

end SolutionGraph
