import SolutionGraph.Proofs.FileTree.Location

/-!
# What a look-up finds

A look-up gives a file that there is, in canonical spelling, with a path that agrees with the one that is sought. Up to
case it gives every such file, where no directory has two names that agree.

* **soundness**: `agrees_of_findFile`, `isCanonical_of_findFile`, `isAbsolute_of_findFile`, for any tree and either policy;
* **completeness**: the search goes from directory to directory and never turns back. It need not: where no directory has
  two names that agree up to case, the names of a file are the only ones that agree with those that are sought
  (`FileNode.eq_of_descend?`), so each step finds the next of them (`stepIgnoringCase_eq`);
* **`findFile_insensitive`** has both, and that what is found as written is found up to case as well.
-/

namespace SolutionGraph

/-- Two paths agree when their components do, one by one and up to the case of ASCII letters. -/
def Path.Agrees (p q : Path) : Prop := List.Forall₂ Component.Matches p.components q.components

theorem Path.agrees_refl (p : Path) : p.Agrees p := List.forall₂_same.2 fun c _ => c.matches_refl

theorem Path.Agrees.isAbsolute {p q : Path} (h : p.Agrees q) (absolute : p.isAbsolute) : q.isAbsolute := by
  obtain ⟨rest, start, _⟩ := Path.components_of_isAbsolute absolute
  rw [Path.Agrees, start] at h
  generalize found : q.components = ds at h
  cases h with
  | @cons _ d _ ds first _ =>
    cases d with
    | root => exact Path.isAbsolute_of_components found
    | current | parent | name => cases first

/-- What matches names and dots that folding leaves is left by folding. -/
theorem Path.IsFolded.of_matches {cs ds : List Component} (h : Path.IsFolded cs)
    (same : List.Forall₂ Component.Matches cs ds) : Path.IsFolded ds := by
  induction h generalizing ds with
  | root =>
    cases same with
    | @cons _ d _ _ first tail =>
      cases tail
      cases d with
      | root => exact .root
      | current | parent | name => cases first
  | above n =>
    suffices ds = List.replicate n .parent from this ▸ .above n
    induction n generalizing ds with
    | zero =>
      cases same
      rfl
    | succ n ih =>
      cases same with
      | @cons _ d _ _ first tail =>
        cases d with
        | parent => rw [List.replicate_succ, ← ih tail]
        | root | current | name => cases first
  | name text h ih =>
    cases same with
    | @cons _ d _ _ first tail =>
      cases d with
      | name text' => exact .name text' (ih tail)
      | root | current | parent => cases first

namespace FileTree

variable {tree : FileTree} {policy : CasePolicy} {dir p : Path} {name : Text}

/-! ## What is found -/

/-- What is found agrees with what is sought, and is in canonical spelling. -/
theorem agrees_of_findFile (h : tree.findFile policy dir name = some p) :
    (Path.absolutize dir name).Agrees p ∧ p.IsCanonical := by
  unfold findFile at h
  simp only at h
  split at h
  · cases h
    exact ⟨Path.agrees_refl _, Path.isCanonical_normalize _⟩
  · split at h
    · cases h
    · obtain ⟨_, ds, same, rfl⟩ := findIgnoringCase_eq_some h
      have normal : Path.IsNormal ds := by
        rw [Path.absolutize, Path.components_normalize] at same
        exact (Path.isNormal_normalComponents _).of_matches same
      have folded : Path.IsFolded ds.reverse :=
        (Path.isCanonical_normalize _).isFolded.of_matches (List.forall₂_reverse_iff.2 same)
      refine ⟨?_, Path.isCanonical_ofComponents normal folded⟩
      rw [Path.Agrees, Path.components_ofComponents normal]
      exact same

theorem isCanonical_of_findFile (h : tree.findFile policy dir name = some p) : p.IsCanonical := (agrees_of_findFile h).2

theorem isAbsolute_of_findFile (absolute : dir.isAbsolute) (h : tree.findFile policy dir name = some p) :
    p.isAbsolute := (agrees_of_findFile h).1.isAbsolute (Path.isAbsolute_absolutize absolute name)

/-- A file that is found from an absolute directory has the names that it has on disk. -/
theorem mem_filePaths_of_findFile (absolute : dir.isAbsolute) (h : tree.findFile policy dir name = some p) :
    p ∈ tree.filePaths :=
  mem_filePaths (findFile_eq_some h).1 (isAbsolute_of_findFile absolute h) (isCanonical_of_findFile h)

end FileTree

/-! ## Going from directory to directory -/

namespace FileNode

variable {node child : FileNode} {name : Text} {names names' : List Text} {last last' : FileNode}

theorem exists_child?_of_mem (mem : name ∈ node.entries.map Prod.fst) : ∃ child, node.child? name = some child := by
  obtain ⟨e, listed, rfl⟩ := List.mem_map.1 mem
  have found : (node.entries.find? fun e' => e'.1 == e.1).isSome := List.find?_isSome.2 ⟨e, listed, beq_self_eq_true _⟩
  obtain ⟨e', found⟩ := Option.isSome_iff_exists.1 found
  exact ⟨e'.2, by rw [child?, found, Option.map_some]⟩

/-- The listing has one name that agrees with the name of an entry. -/
theorem find?_eq_some (distinct : node.isCaseDistinct) (found : node.child? name = some child) {sought : Text}
    (same : Text.eqIgnoringCase sought name) :
    (node.entries.map Prod.fst).find? (fun entry => Text.eqIgnoringCase entry sought) = some name := by
  have lower := Text.eqIgnoringCase_iff.1 same
  have listed : name ∈ node.entries.map Prod.fst := List.mem_map_of_mem (mem_of_child?_eq_some found)
  have some : ((node.entries.map Prod.fst).find? fun entry => Text.eqIgnoringCase entry sought).isSome :=
    List.find?_isSome.2 ⟨name, listed, Text.eqIgnoringCase_iff.2 lower.symm⟩
  obtain ⟨entry, first⟩ := Option.isSome_iff_exists.1 some
  obtain ⟨other, found'⟩ := exists_child?_of_mem (List.mem_of_find?_eq_some first)
  have agrees := List.find?_some first
  rw [first, name_eq_of_asciiLower_eq distinct found' found ((Text.eqIgnoringCase_iff.1 agrees).trans lower)]

end FileNode

/-- Names that agree up to the case of ASCII letters, one by one. -/
def Text.AllAgree (names names' : List Text) : Prop := List.Forall₂ (fun s t => eqIgnoringCase s t) names names'

namespace FileNode

variable {node : FileNode} {names names' : List Text} {last last' : FileNode}

/-- **Names that agree and lead somewhere are the same**, where no directory has two names that agree. -/
theorem eq_of_descend? (distinct : node.isCaseDistinct) (same : Text.AllAgree names names')
    (h : node.descend? names = some last) (h' : node.descend? names' = some last') : names = names' := by
  induction same generalizing node with
  | nil => rfl
  | @cons name name' names names' first _ ih =>
    obtain ⟨child, found, below⟩ := Option.bind_eq_some_iff.1 h
    obtain ⟨child', found', below'⟩ := Option.bind_eq_some_iff.1 h'
    obtain rfl := name_eq_of_asciiLower_eq distinct found found' (Text.eqIgnoringCase_iff.1 first)
    cases found.symm.trans found'
    rw [ih (isCaseDistinct_child distinct found) below below']

end FileNode

namespace FileTree

variable {tree : FileTree} {node : FileNode} {done names names' : List Text} {last : FileNode} {dir p : Path} {name : Text}

theorem entries?_ofNames (isDir : tree.root.isDir) (plain : ∀ name ∈ done, Path.IsName name)
    (here : tree.root.descend? done = some node) (inside : node.isDir) :
    tree.entries? (Path.ofNames done) = some (node.entries.map Prod.fst) := by
  rw [entries?, get?_ofNames isDir plain, here]
  cases node with
  | dir => rfl
  | file | unreadable => cases inside

/-- **Each step finds the next name** of what there is, as it is on disk. -/
theorem stepIgnoringCase_eq (isDir : tree.root.isDir) (distinct : node.isCaseDistinct)
    (plain : ∀ name ∈ done, Path.IsName name) (here : tree.root.descend? done = some node) {sought : Text}
    (isName : Path.IsName sought) {child : FileNode} (found : node.child? name = some child)
    (same : Text.eqIgnoringCase sought name) :
    tree.stepIgnoringCase (Path.ofNames done) (.name sought) = some (Path.ofNames (done ++ [name])) := by
  have plain' : ∀ n ∈ done ++ [sought], Path.IsName n :=
    List.forall_mem_append.2 ⟨plain, List.forall_mem_singleton.2 isName⟩
  rw [stepIgnoringCase]
  simp only [← Path.ofNames_concat, holds, get?_ofNames isDir plain', FileNode.descend?_concat, here, Option.bind_some]
  cases exact : node.child? sought with
  | some child' =>
    rw [FileNode.name_eq_of_asciiLower_eq distinct exact found (Text.eqIgnoringCase_iff.1 same)]
    rfl
  | none =>
    rw [entries?_ofNames isDir plain here (FileNode.isDir_of_child?_eq_some found)]
    simp [FileNode.find?_eq_some distinct found same]

/-- The whole search comes to what there is, by names that agree with those that are sought. -/
theorem foldlM_stepIgnoringCase_eq (isDir : tree.root.isDir) (distinct : node.isCaseDistinct)
    (plain : ∀ name ∈ done, Path.IsName name) (here : tree.root.descend? done = some node)
    (same : Text.AllAgree names names') (isName : ∀ name ∈ names, Path.IsName name)
    (isName' : ∀ name ∈ names', Path.IsName name) (there : node.descend? names' = some last) :
    (names.map .name).foldlM tree.stepIgnoringCase (Path.ofNames done) = some (Path.ofNames (done ++ names')) := by
  induction same generalizing node done with
  | nil => rw [List.append_nil]; rfl
  | @cons sought name names names' first _ ih =>
    obtain ⟨child, found, below⟩ := Option.bind_eq_some_iff.1 there
    rw [List.forall_mem_cons] at isName isName'
    have step := stepIgnoringCase_eq isDir distinct plain here isName.1 found first
    have here' : tree.root.descend? (done ++ [name]) = some child := by
      rw [FileNode.descend?_concat, here]
      exact found
    have plain' : ∀ n ∈ done ++ [name], Path.IsName n :=
      List.forall_mem_append.2 ⟨plain, List.forall_mem_singleton.2 isName'.1⟩
    have rest := ih (FileNode.isCaseDistinct_child distinct found) plain' here' isName.2 isName'.2 below
    rw [List.append_assoc, List.singleton_append] at rest
    rw [List.map_cons, List.foldlM_cons, step]
    exact rest

/-! ## What there is -/

theorem allAgree_of_agrees {q : Path} (h : p.Agrees q) (sought : p.components = .root :: names.map .name)
    (found : q.components = .root :: names'.map .name) : Text.AllAgree names names' := by
  rw [Path.Agrees, sought, found] at h
  cases h with
  | cons _ rest => rwa [List.forall₂_map_left_iff, List.forall₂_map_right_iff] at rest

/-- **A file whose path agrees is found**, where no directory has two names that agree. -/
theorem findFile_of_agrees (distinct : tree.IsCaseDistinct) (absolute : dir.isAbsolute) (file : tree.isFile p)
    (canonical : p.IsCanonical) (agrees : (Path.absolutize dir name).Agrees p) :
    tree.findFile .insensitive dir name = some p := by
  have absoluteSought := Path.isAbsolute_absolutize absolute name
  have canonicalSought : (Path.absolutize dir name).IsCanonical := Path.isCanonical_normalize _
  obtain ⟨names, plain, shape, spelled⟩ := canonicalSought.exists_ofNames absoluteSought
  obtain ⟨names', plain', shape', rfl⟩ := canonical.exists_ofNames (agrees.isAbsolute absoluteSought)
  have same := allAgree_of_agrees agrees shape shape'
  obtain ⟨last, there, _⟩ := isDir_eq_false_of_isFile file
  have isDir := isDir_root there
  rw [get?_ofNames isDir plain'] at there
  unfold findFile
  simp only
  split
  · -- what is sought is a file itself, and so it is the only one that agrees
    rename_i exact
    obtain ⟨other, here, _⟩ := isDir_eq_false_of_isFile exact
    rw [spelled, get?_ofNames isDir plain] at here
    rw [spelled, FileNode.eq_of_descend? distinct same here there]
  · have start : tree.stepIgnoringCase ⟨[]⟩ .root = some (Path.ofNames []) := rfl
    have searched : (names.map .name).foldlM tree.stepIgnoringCase (Path.ofNames []) = some (Path.ofNames names') :=
      foldlM_stepIgnoringCase_eq isDir distinct nofun rfl same plain plain' there
    simp only [findIgnoringCase, shape, List.foldlM_cons, start, Option.bind_eq_bind, Option.bind_some, searched, file,
      if_true]

/-- What is found as written is found up to case. -/
theorem findFile_insensitive_of_sensitive (h : tree.findFile .sensitive dir name = some p) :
    tree.findFile .insensitive dir name = some p := by
  unfold findFile at h ⊢
  simp only at h ⊢
  split at h
  · rw [if_pos ‹_›, h]
  · cases h

/-- **A look-up up to case finds exactly the file that agrees**, on a disk where no directory has two names that agree up
to case and from an absolute directory. It is spelled as on disk, and what is found as written is found up to case too. -/
theorem findFile_insensitive (distinct : tree.IsCaseDistinct) (absolute : dir.isAbsolute) (name : Text) :
    (∀ p, tree.findFile .insensitive dir name = some p ↔
        tree.isFile p ∧ p.IsCanonical ∧ (Path.absolutize dir name).Agrees p) ∧
      (∀ p, tree.findFile .insensitive dir name = some p → p ∈ tree.filePaths) ∧
      ∀ p, tree.findFile .sensitive dir name = some p → tree.findFile .insensitive dir name = some p := by
  refine ⟨fun p => ⟨fun found => ?_, fun ⟨file, canonical, agrees⟩ => ?_⟩, fun p found => ?_, fun p found => ?_⟩
  · obtain ⟨agrees, canonical⟩ := agrees_of_findFile found
    exact ⟨(findFile_eq_some found).1, canonical, agrees⟩
  · exact findFile_of_agrees distinct absolute file canonical agrees
  · exact mem_filePaths_of_findFile absolute found
  · exact findFile_insensitive_of_sensitive found

/-- A disk on which a directory and a header are written with capitals. -/
def capitals : FileTree := ⟨.dir [("w", .dir [("Include", .dir [("Widget.h", .file [])]), ("src", .dir [])])], ["w"]⟩

/-- A header is found from a directory beside its own, in small letters. -/
theorem findFile_insensitive_capitals : capitals.IsCaseDistinct ∧ Path.isAbsolute "/w/src" ∧
    capitals.findFile .insensitive "/w/src" "..\\include\\widget.H" = some "/w/Include/Widget.h" ∧
    ("/w/Include/Widget.h" : Path) ∈ capitals.filePaths := by
  have distinct : capitals.IsCaseDistinct := by decide
  have absolute : Path.isAbsolute "/w/src" := rfl
  obtain ⟨exact, spelled, _⟩ := findFile_insensitive distinct absolute "..\\include\\widget.H"
  have agrees : (Path.absolutize "/w/src" "..\\include\\widget.H").Agrees "/w/Include/Widget.h" :=
    .cons rfl (.cons rfl (.cons rfl (.cons rfl .nil)))
  have found := (exact "/w/Include/Widget.h").2 ⟨rfl, rfl, agrees⟩
  exact ⟨distinct, absolute, found, spelled _ found⟩

end FileTree

end SolutionGraph
