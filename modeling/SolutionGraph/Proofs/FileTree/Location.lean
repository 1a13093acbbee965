import SolutionGraph.Proofs.FileTree.Outline
import SolutionGraph.Proofs.Path.Canonical
import SolutionGraph.Proofs.Path.Join

/-!
# Where a path leads

In a tree without links an entry has one place: the names that lead to it from the root (`FileNode.descend?`).

* **following**: a path that leads somewhere leads to the entry at its place (`descend?_place`), and a list of names leads
  where the names do (`get?_ofNames`);
* **files**: a file that is named by an absolute path in canonical spelling is one of finitely many (`mem_filePaths`);
* **folding**: what is left of an absolute path when dots are folded away are the names of its place
  (`normalize_eq_ofNames`). So folding changes the spelling only: `get?_normalize`, and with what it does to the text,
  `normalize_canonical`.
-/

namespace SolutionGraph

/-! ## Names below a node -/

namespace FileNode

/-- What names lead to, each below the one before. -/
def descend? : FileNode → List Text → Option FileNode
  | node, [] => some node
  | node, name :: names => (node.child? name).bind fun child => child.descend? names

variable {node child last : FileNode} {name : Text} {names : List Text}

theorem descend?_append (node : FileNode) (names more : List Text) :
    node.descend? (names ++ more) = (node.descend? names).bind fun last => last.descend? more := by
  induction names generalizing node with
  | nil => rfl
  | cons name names ih =>
    rw [List.cons_append, descend?, descend?, Option.bind_assoc]
    exact congrArg _ (funext ih)

theorem descend?_concat (node : FileNode) (names : List Text) (name : Text) :
    node.descend? (names ++ [name]) = (node.descend? names).bind fun last => last.child? name := by
  rw [descend?_append]
  congr 1
  funext last
  cases found : last.child? name <;> simp [descend?, found]

theorem isDir_of_child?_eq_some (h : node.child? name = some child) : node.isDir := by
  cases node with
  | dir => rfl
  | file | unreadable => cases h

theorem mem_descendants_of_mem {entries : List (Text × FileNode)} {below : List Text × FileNode}
    (entry : (name, child) ∈ entries)
    (h : below ∈ ([name], child) :: child.descendants.map fun (names, node) => (name :: names, node)) :
    below ∈ descendants (.dir entries) := by
  rw [descendants, List.mem_flatMap]
  refine ⟨(name, _), List.mem_mergeSort.2 ?_, h⟩
  clear h
  induction entries with
  | nil => cases entry
  | cons e rest ih =>
    obtain ⟨first, node⟩ := e
    rw [descendEntries]
    rcases List.mem_cons.1 entry with same | entry
    · cases same
      exact List.mem_cons_self
    · exact List.mem_cons_of_mem _ (ih entry)

/-- What names lead to is below the node. -/
theorem mem_descendants (h : node.descend? (name :: names) = some last) : (name :: names, last) ∈ node.descendants := by
  induction names generalizing node name with
  | nil =>
    obtain ⟨child, found, here⟩ := Option.bind_eq_some_iff.1 h
    cases here
    have entry := mem_of_child?_eq_some found
    cases node with
    | file | unreadable => cases entry
    | dir entries => exact mem_descendants_of_mem entry List.mem_cons_self
  | cons next names ih =>
    obtain ⟨child, found, below⟩ := Option.bind_eq_some_iff.1 h
    have entry := mem_of_child?_eq_some found
    cases node with
    | file | unreadable => cases entry
    | dir entries =>
      exact mem_descendants_of_mem entry (List.mem_cons_of_mem _ (List.mem_map.2 ⟨_, ih below, rfl⟩))

end FileNode

namespace FileTree

variable {tree : FileTree} {root node : FileNode} {done names segments : List Text} {chain reached : List FileNode}
  {p : Path}

/-! ## Following -/

/-- The nodes on the way from the root through names, both with the last one first. -/
inductive IsTrail (root : FileNode) : List Text → List FileNode → Prop
  | root : IsTrail root [] [root]
  | child {done : List Text} {parent node : FileNode} {above : List FileNode} {name : Text}
    (up : IsTrail root done (parent :: above)) (found : parent.child? name = some node) :
    IsTrail root (name :: done) (node :: parent :: above)

theorem IsTrail.descend? {above : List FileNode} (h : IsTrail root done (node :: above)) :
    root.descend? done.reverse = some node := by
  generalize whole : node :: above = chain at h
  induction h generalizing node above with
  | root =>
    cases whole
    rfl
  | child up found ih =>
    cases whole
    rw [List.reverse_cons, FileNode.descend?_concat, ih rfl]
    exact found

/-- Going up one step; from the root it leads to the root. -/
theorem IsTrail.up {above : List FileNode} (h : IsTrail root done (node :: above)) :
    IsTrail root done.tail (if above.isEmpty then [node] else above) := by
  cases h with
  | root => exact .root
  | child up _ => exact up

/-- **Following segments** leads from one trail to another, at the place that the segments name. -/
theorem IsTrail.follow (h : IsTrail root done chain) (ok : FileTree.follow chain segments = .ok reached) :
    IsTrail root (placeFrom done segments) reached := by
  induction segments generalizing done chain with
  | nil =>
    rw [FileTree.follow] at ok
    cases ok
    exact h
  | cons segment rest ih =>
    cases chain with
    | nil => cases h
    | cons node above =>
      rw [FileTree.follow] at ok
      rw [placeFrom]
      split at ok
      · cases ok
      · split at ok
        · rw [if_pos ‹_›]
          exact ih h ok
        · rw [if_neg ‹_›]
          split at ok
          · rw [if_pos ‹_›]
            exact ih h.up ok
          · rw [if_neg ‹_›]
            split at ok
            · exact ih (.child h ‹_›) ok
            · cases ok

theorem get?_eq_some (h : tree.get? p = some node) : ∃ segments above, tree.segments? p = some segments ∧
    FileTree.follow [tree.root] segments = .ok (node :: above) := by
  unfold get? lookup at h
  cases named : tree.segments? p with
  | none =>
    rw [named] at h
    cases h
  | some segments =>
    rw [named] at h
    cases followed : FileTree.follow [tree.root] segments with
    | error => simp [followed, Except.toOption] at h
    | ok reached =>
      cases reached with
      | nil => simp [followed, Except.toOption] at h
      | cons last above =>
        simp only [followed, Except.toOption, Option.some.injEq] at h
        exact ⟨segments, above, rfl, h ▸ followed⟩

/-- **A path leads to the entry at its place**, if it leads anywhere. -/
theorem descend?_place (h : tree.get? p = some node) : tree.root.descend? (tree.place p).reverse = some node := by
  obtain ⟨segments, above, named, followed⟩ := get?_eq_some h
  rw [place, named, Option.getD_some]
  exact (IsTrail.root.follow followed).descend?

/-- Only directories can be gone through. -/
theorem isDir_root (h : tree.get? p = some node) : tree.root.isDir := by
  obtain ⟨segments, above, named, followed⟩ := get?_eq_some h
  cases segments with
  | nil =>
    -- there is a segment in any path
    rcases segments?_eq_some named with ⟨body, _, e⟩ | ⟨c, rest, _, _, e⟩
    · exact absurd e.symm (Text.splitOn_ne_nil '/' body)
    · exact absurd (List.append_eq_nil_iff.1 e.symm).2 (Text.splitOn_ne_nil '/' p.text)
  | cons segment rest =>
    rw [FileTree.follow] at followed
    split at followed
    · cases followed
    · rename_i isDir
      simpa using isDir

/-! ## Names from the root -/

theorem segments?_ofNames (plain : ∀ name ∈ names, Path.IsName name) :
    tree.segments? (Path.ofNames names) = some (if names = [] then [[]] else names) := by
  have cut : tree.segments? (Path.ofNames names) = some (Text.splitOn '/' (Path.spell (names.map .name))) := by
    rw [segments?, Path.text_ofNames plain]
    rfl
  rw [cut]
  cases names with
  | nil => rfl
  | cons name names =>
    rw [if_neg (List.cons_ne_nil _ _), List.map_cons, Path.splitOn_spell (Path.isPlain_of_mem_map_name plain)]
    simp [Component.text, Function.comp_def]

theorem placeFrom_names (plain : ∀ name ∈ names, Path.IsName name) (done : List Text) :
    placeFrom done names = names.reverse ++ done := by
  induction names generalizing done with
  | nil => rfl
  | cons name names ih =>
    obtain ⟨first, rest⟩ := List.forall_mem_cons.1 plain
    rw [placeFrom, first.isSilent, if_neg Bool.false_ne_true, if_neg first.ne_dots, ih rest]
    simp

theorem place_ofNames (plain : ∀ name ∈ names, Path.IsName name) : tree.place (Path.ofNames names) = names.reverse := by
  rw [place, segments?_ofNames plain, Option.getD_some]
  split
  · rename_i none
    rw [none]
    rfl
  · rw [placeFrom_names plain, List.append_nil]

theorem exists_follow_names (plain : ∀ name ∈ names, Path.IsName name) (above : List FileNode) {last : FileNode}
    (h : node.descend? names = some last) : ∃ above', FileTree.follow (node :: above) names = .ok (last :: above') := by
  induction names generalizing node above with
  | nil =>
    cases h
    exact ⟨above, by rw [FileTree.follow]⟩
  | cons name names ih =>
    obtain ⟨first, rest⟩ := List.forall_mem_cons.1 plain
    obtain ⟨child, found, below⟩ := Option.bind_eq_some_iff.1 h
    have isDir := FileNode.isDir_of_child?_eq_some found
    rw [FileTree.follow, isDir, first.isSilent, if_neg (by simp), if_neg Bool.false_ne_true, if_neg first.ne_dots, found]
    exact ih rest (node :: above) below

/-- **Names lead from the root** to what is below it. -/
theorem get?_ofNames (isDir : tree.root.isDir) (plain : ∀ name ∈ names, Path.IsName name) :
    tree.get? (Path.ofNames names) = tree.root.descend? names := by
  cases there : tree.root.descend? names with
  | none =>
    by_contra found
    obtain ⟨node, found⟩ := Option.ne_none_iff_exists'.1 found
    have below := descend?_place found
    rw [place_ofNames plain, List.reverse_reverse, there] at below
    cases below
  | some last =>
    rw [get?, lookup, segments?_ofNames plain]
    by_cases none : names = []
    · subst none
      cases there
      rw [if_pos rfl]
      simp [FileTree.follow, isDir, Path.isSilent, Except.toOption]
    · obtain ⟨above, followed⟩ := exists_follow_names plain [] there
      simp only [if_neg none, followed, Except.toOption]

/-! ## Folding dots away -/

/-- Folding components goes the way of the segments that they are read from. -/
theorem foldl_fold_innerComponent (done segments : List Text) :
    (segments.filterMap Path.innerComponent).foldl Path.fold (done.map .name ++ [.root]) =
      (placeFrom done segments).map .name ++ [.root] := by
  induction segments generalizing done with
  | nil => rfl
  | cons segment rest ih =>
    rw [placeFrom]
    by_cases silent : Path.isSilent segment
    · have none : Path.innerComponent segment = none := by rw [Path.innerComponent, if_pos silent]
      rw [List.filterMap_cons_none none, if_pos silent, ih]
    · rw [if_neg silent]
      by_cases dots : segment = ".."
      · have parent : Path.innerComponent segment = some .parent := by
          rw [Path.innerComponent, if_neg silent, if_pos dots]
        -- there is nothing above the root
        have up : Path.fold (done.map .name ++ [.root]) .parent = done.tail.map .name ++ [.root] := by
          cases done <;> rfl
        rw [List.filterMap_cons_some parent, List.foldl_cons, up, if_pos dots, ih]
      · have name : Path.innerComponent segment = some (.name segment) := by
          rw [Path.innerComponent, if_neg silent, if_neg dots]
        rw [List.filterMap_cons_some name, List.foldl_cons, if_neg dots, ← ih]
        rfl

theorem normalComponents_eq_place (tree : FileTree) (absolute : p.isAbsolute) :
    p.normalComponents = .root :: (tree.place p).reverse.map .name := by
  obtain ⟨t⟩ := p
  cases t with
  | nil => cases absolute
  | cons c body =>
    obtain rfl : c = '/' := by simpa [Path.isAbsolute] using absolute
    have folded := foldl_fold_innerComponent [] (Text.splitOn '/' body)
    show (((Text.splitOn '/' body).filterMap Path.innerComponent).foldl Path.fold [.root]).reverse =
      .root :: (placeFrom [] (Text.splitOn '/' body)).reverse.map .name
    rw [List.map_nil, List.nil_append] at folded
    rw [folded, List.reverse_append, List.map_reverse]
    rfl

/-- **What is left of an absolute path** are the names of its place. -/
theorem normalize_eq_ofNames (tree : FileTree) (absolute : p.isAbsolute) :
    p.normalize = Path.ofNames (tree.place p).reverse ∧ ∀ name ∈ (tree.place p).reverse, Path.IsName name := by
  obtain ⟨names, plain, shape, spelled⟩ := Path.exists_ofNames absolute
  rw [normalComponents_eq_place tree absolute, List.cons.injEq, Path.map_name_inj] at shape
  rw [shape.2]
  exact ⟨spelled, plain⟩

/-- A place has one absolute path in canonical spelling. -/
theorem eq_of_place_eq {q : Path} (absolute : p.isAbsolute) (canonical : p.IsCanonical) (absolute' : q.isAbsolute)
    (canonical' : q.IsCanonical) (same : tree.place p = tree.place q) : p = q := by
  rw [← canonical, (normalize_eq_ofNames tree absolute).1, same, ← (normalize_eq_ofNames tree absolute').1, canonical']

/-- **Folding dots away in an absolute path** keeps what it leads to and where that is, if it leads anywhere. -/
theorem get?_normalize (absolute : p.isAbsolute) (h : tree.get? p = some node) :
    tree.get? p.normalize = some node ∧ tree.place p.normalize = tree.place p := by
  obtain ⟨spelled, plain⟩ := normalize_eq_ofNames tree absolute
  rw [spelled, get?_ofNames (isDir_root h) plain, place_ofNames plain, List.reverse_reverse]
  exact ⟨descend?_place h, rfl⟩

/-! ## The files of a tree -/

theorem isDir_eq_false_of_isFile (h : tree.isFile p) : ∃ node, tree.get? p = some node ∧ node.isDir = false := by
  unfold isFile at h
  split at h
  · exact ⟨_, ‹_›, rfl⟩
  · exact ⟨_, ‹_›, rfl⟩
  · cases h

/-- The paths of the files of a tree, by the names on disk. -/
def filePaths (tree : FileTree) : List Path :=
  (tree.root.descendants.filter fun e => !e.2.isDir).map fun e => Path.ofNames e.1

/-- **A file has its path among those of the tree**, if it is named by an absolute path in canonical spelling. -/
theorem mem_filePaths (h : tree.isFile p) (absolute : p.isAbsolute) (canonical : p.IsCanonical) : p ∈ tree.filePaths := by
  obtain ⟨node, there, file⟩ := isDir_eq_false_of_isFile h
  have below := descend?_place there
  refine List.mem_map.2 ⟨((tree.place p).reverse, node), List.mem_filter.2 ⟨?_, by rw [file]; rfl⟩, ?_⟩
  · cases place : (tree.place p).reverse with
    | nil =>
      -- the root is a directory
      rw [place] at below
      cases below
      rw [isDir_root there] at file
      cases file
    | cons name names => exact FileNode.mem_descendants (place ▸ below)
  · rw [← (normalize_eq_ofNames tree absolute).1, canonical]

/-! ## What folding keeps -/

/-- **Folding dots away is a canonical form that keeps the meaning of a path.** No dot is left, and no `..` but for a block
at the start of a relative path; folding again changes nothing, nor does folding a path before another one goes on from it;
and an absolute path that leads to an entry of a tree leads there, to the same place, when it has been folded. -/
theorem normalize_canonical :
    (∀ a : Path, .current ∉ a.normalize.components ∧
        (a.isAbsolute → .parent ∉ a.normalize.components) ∧
        (a.isAbsolute = false → ∃ (n : Nat) (names : List Text),
          a.normalize.components = List.replicate n .parent ++ names.map .name) ∧
        a.normalize.normalize = a.normalize) ∧
      (∀ a b : Path, (a.join b).normalize = (a.normalize.join b).normalize) ∧
      ∀ (tree : FileTree) (a : Path) (node : FileNode), a.isAbsolute → tree.get? a = some node →
        tree.get? a.normalize = some node ∧ tree.place a.normalize = tree.place a ∧
          tree.root.descend? (tree.place a).reverse = some node := by
  refine ⟨fun a => ?_, fun a b => (Path.normalize_join_normalize a b).symm, fun tree a node absolute there => ?_⟩
  · rw [Path.components_normalize]
    cases absolute : a.isAbsolute with
    | true =>
      obtain ⟨names, shape⟩ := Path.normalComponents_of_isAbsolute absolute
      exact ⟨by simp [shape], fun _ => by simp [shape], nofun, Path.normalize_normalize a⟩
    | false =>
      obtain ⟨n, names, shape⟩ := Path.normalComponents_of_relative absolute
      exact ⟨by simp [shape], nofun, fun _ => ⟨n, names, shape⟩, Path.normalize_normalize a⟩
  · obtain ⟨same, place⟩ := get?_normalize absolute there
    exact ⟨same, place, descend?_place there⟩

/-- A disk with a directory beside a header. -/
def besideHeader : FileTree := ⟨.dir [("w", .dir [("sub", .dir []), ("a.h", .file [])])], ["w"]⟩

/-- A header that is reached by a detour is reached without it. -/
theorem normalize_canonical_detour :
    Path.isAbsolute "/w/./sub/../a.h" ∧ besideHeader.get? "/w/./sub/../a.h" = some (.file []) ∧
      besideHeader.get? (Path.normalize "/w/./sub/../a.h") = some (.file []) ∧
      besideHeader.place (Path.normalize "/w/./sub/../a.h") = besideHeader.place "/w/./sub/../a.h" := by
  have there : besideHeader.get? "/w/./sub/../a.h" = some (.file []) := rfl
  obtain ⟨same, place, _⟩ := normalize_canonical.2.2 besideHeader "/w/./sub/../a.h" (.file []) rfl there
  exact ⟨rfl, there, same, place⟩

end FileTree

end SolutionGraph
