import SolutionGraph.Glob.Expand
import SolutionGraph.Proofs.FileTree.Find

/-!
# Which files there are, and what is in them

The outline of a tree is the tree without the contents of its files. Every question but that for the content of a file is
answered by the outline alone (`FileTree.isFile_outline`, `FileTree.holds_outline`, `FileTree.findFile_outline`,
`Glob.files_outline`).

* **`FileTree.place`** is where a path leads by its text alone;
* **`FileTree.Alike`**: two trees have the same outline (`FileTree.Alike.outline_eq`), and the contents of their files are
  related pairwise, place by place; so is what is read at any path (`FileTree.Alike.readBytes`).
-/

namespace SolutionGraph

/-! ## Outlines -/

namespace FileNode

mutual

/-- The node without the contents of its files. -/
def outline : FileNode → FileNode
  | .file _ => .file []
  | .unreadable => .unreadable
  | .dir entries => .dir (outlineEntries entries)

/-- The entries without the contents of their files. -/
def outlineEntries : List (Text × FileNode) → List (Text × FileNode)
  | [] => []
  | (name, child) :: rest => (name, outline child) :: outlineEntries rest

end

theorem outlineEntries_eq_map (entries : List (Text × FileNode)) :
    outlineEntries entries = entries.map fun e => (e.1, e.2.outline) := by
  induction entries with
  | nil => rw [outlineEntries]; rfl
  | cons e entries ih =>
    obtain ⟨name, child⟩ := e
    rw [outlineEntries, ih, List.map_cons]

theorem entries_outline (node : FileNode) : node.outline.entries = node.entries.map fun e => (e.1, e.2.outline) := by
  cases node with
  | file | unreadable => rfl
  | dir es => exact outlineEntries_eq_map es

theorem isDir_outline (node : FileNode) : node.outline.isDir = node.isDir := by
  cases node <;> rfl

theorem child?_outline (node : FileNode) (name : Text) : node.outline.child? name = (node.child? name).map outline := by
  rw [child?, entries_outline, List.find?_map, child?, Option.map_map, Option.map_map]
  rfl

theorem sortedEntries_map {α β : Type} (f : α → β) (entries : List (Text × α)) :
    sortedEntries (entries.map fun e => (e.1, f e.2)) = (sortedEntries entries).map fun e => (e.1, f e.2) := by
  unfold sortedEntries
  rw [List.map_mergeSort]
  exact fun _ _ _ _ => rfl

/-- Nodes by the names that lead to them, each without the contents of its files. -/
def outlineAll (found : List (List Text × FileNode)) : List (List Text × FileNode) :=
  found.map fun e => (e.1, e.2.outline)

mutual

theorem descendants_outline : ∀ node : FileNode, node.outline.descendants = outlineAll node.descendants
  | .file _ => by simp [outline, descendants, outlineAll]
  | .unreadable => by simp [outline, descendants, outlineAll]
  | .dir entries => by
    rw [outline, descendants, descendants, descendEntries_outline entries, sortedEntries_map, List.flatMap_map, outlineAll,
      List.map_flatMap]
    rfl

theorem descendEntries_outline : ∀ entries : List (Text × FileNode),
    descendEntries (outlineEntries entries) = (descendEntries entries).map fun e => (e.1, outlineAll e.2)
  | [] => by rw [outlineEntries, descendEntries]; rfl
  | (name, child) :: rest => by
    rw [outlineEntries, descendEntries, descendEntries, descendEntries_outline rest, descendants_outline child]
    simp [outlineAll]

end

end FileNode

namespace FileTree

/-- The tree without the contents of its files. -/
def outline (tree : FileTree) : FileTree := { tree with root := tree.root.outline }

theorem follow_outline (chain : List FileNode) (segments : List Text) :
    follow (chain.map FileNode.outline) segments = (follow chain segments).map (List.map FileNode.outline) := by
  fun_induction follow chain segments with
  | case1 chain => rw [follow]; rfl
  | case2 => rw [List.map_nil, follow]; rfl
  | case3 node above segment rest noDir =>
    rw [List.map_cons, follow, FileNode.isDir_outline, if_pos noDir]
    rfl
  | case4 node above segment rest isDir silent ih =>
    rw [List.map_cons] at ih ⊢
    rw [follow, FileNode.isDir_outline, if_neg isDir, if_pos silent, ih]
  | case5 node above rest isDir silent ih =>
    rw [List.map_cons, follow, FileNode.isDir_outline, if_neg isDir, if_neg silent, if_pos rfl, ← ih]
    congr 1
    rw [List.isEmpty_map]
    split <;> rfl
  | case6 node above segment rest isDir silent inner child found ih =>
    rw [List.map_cons, follow, FileNode.isDir_outline, if_neg isDir, if_neg silent, if_neg inner,
      FileNode.child?_outline, found]
    exact ih
  | case7 node above segment rest isDir silent inner missing =>
    rw [List.map_cons, follow, FileNode.isDir_outline, if_neg isDir, if_neg silent, if_neg inner,
      FileNode.child?_outline, missing]
    rfl

theorem get?_outline (tree : FileTree) (p : Path) : tree.outline.get? p = (tree.get? p).map FileNode.outline := by
  have named : tree.outline.segments? p = tree.segments? p := rfl
  unfold get? lookup
  rw [named]
  cases tree.segments? p with
  | none => rfl
  | some segments =>
    have followed := follow_outline [tree.root] segments
    simp only
    rw [show [tree.outline.root] = [tree.root].map FileNode.outline from rfl, followed]
    cases follow [tree.root] segments with
    | error => rfl
    | ok reached => cases reached <;> rfl

theorem holds_outline (tree : FileTree) (p : Path) : tree.outline.holds p = tree.holds p := by
  rw [holds, get?_outline, Option.isSome_map, holds]

theorem isFile_outline (tree : FileTree) (p : Path) : tree.outline.isFile p = tree.isFile p := by
  rw [isFile, get?_outline, isFile]
  cases tree.get? p with
  | none => rfl
  | some node => cases node <;> rfl

theorem entries?_outline (tree : FileTree) (p : Path) : tree.outline.entries? p = tree.entries? p := by
  rw [entries?, get?_outline, entries?]
  cases tree.get? p with
  | none => rfl
  | some node =>
    cases node with
    | file | unreadable => rfl
    | dir es =>
      rw [Option.map_some, FileNode.outline, FileNode.outlineEntries_eq_map]
      simp only [List.map_map, Function.comp_def]

/-- A look-up does not read files. -/
theorem findFile_outline (tree : FileTree) (policy : CasePolicy) (dir : Path) (name : Text) :
    tree.outline.findFile policy dir name = tree.findFile policy dir name := by
  have step : tree.outline.stepIgnoringCase = tree.stepIgnoringCase := by
    funext resolved c
    unfold stepIgnoringCase
    simp only [holds_outline, entries?_outline]
  simp only [findFile, findIgnoringCase, isFile_outline, step]

end FileTree

namespace Glob

theorem lookUp_outline (tree : FileTree) (ps : List Pattern) (path : Path) (node : FileNode) :
    lookUp tree.outline ps path node.outline = lookUp tree ps path node := by
  -- `**` takes the pattern after it along, so the induction is on the number of patterns
  induction count : ps.length using Nat.strongRecOn generalizing ps path node with
  | _ n ih =>
  cases ps with
  | nil => rw [lookUp, lookUp]
  | cons p rest =>
    have inner (qs : List Pattern) (fewer : qs.length < n) (path : Path) (node : FileNode) :
        lookUp tree.outline qs path node.outline = lookUp tree qs path node := ih _ fewer qs path node rfl
    have fewer : rest.length < n := by simp [← count]
    rw [lookUp, lookUp]
    simp only [FileTree.get?_outline, FileTree.holds_outline, FileNode.isDir_outline, FileNode.entries_outline,
      FileNode.descendants_outline, FileNode.outlineAll, FileNode.sortedEntries_map, List.flatMap_map]
    cases p.literal? with
    | some name =>
      simp only
      cases tree.get? (step path name) <;> simp [inner rest fewer]
    | none =>
      simp only
      split
      · congr 1
        funext ⟨names, child⟩
        cases rest with
        | nil => rfl
        | cons q rest' =>
          have fewer' : rest'.length < n := by simp only [List.length_cons] at fewer; omega
          simp only [inner rest' fewer']
      · congr 1
        · congr 1
          funext name
          cases tree.get? (path.join ⟨name⟩) <;> simp [inner rest fewer]
        · simp only [inner rest fewer]

theorem files_outline (tree : FileTree) (path : Path) : files tree.outline path = files tree path := by
  have isFile : tree.outline.isFile = tree.isFile := funext tree.isFile_outline
  have expanded : expand tree.outline path = expand tree path := by
    unfold expand
    simp only [FileTree.get?_outline]
    split
    · rename_i whole segments start
      obtain ⟨node, there, rfl⟩ := Option.map_eq_some_iff.1 start
      simp only [whole, segments, there, lookUp_outline]
    · rename_i missing
      split
      · rename_i whole segments start
        exact (missing _ _ _ whole segments (by rw [start]; rfl)).elim
      · rfl
  rw [files, files, isFile, expanded]

end Glob

/-! ## Trees with the same outline -/

namespace FileNode

mutual

/-- Two nodes differ in the contents of files only, which are related; `above` are the names that lead to them, the last
one first. -/
def Alike (R : List Text → List UInt8 → List UInt8 → Prop) (above : List Text) : FileNode → FileNode → Prop
  | .file bytes, .file bytes' => R above bytes bytes'
  | .unreadable, .unreadable => True
  | .dir entries, .dir entries' => AlikeEntries R above entries entries'
  | _, _ => False

/-- Two directories have entries of the same names, and these differ in the contents of files only. -/
def AlikeEntries (R : List Text → List UInt8 → List UInt8 → Prop) (above : List Text) :
    List (Text × FileNode) → List (Text × FileNode) → Prop
  | [], [] => True
  | (name, child) :: rest, (name', child') :: rest' =>
    name = name' ∧ Alike R (name :: above) child child' ∧ AlikeEntries R above rest rest'
  | _, _ => False

end

variable {R : List Text → List UInt8 → List UInt8 → Prop} {above : List Text}

mutual

theorem Alike.outline_eq {above : List Text} : ∀ {node node' : FileNode}, Alike R above node node' →
    node.outline = node'.outline
  | .file _, node', h => by
    cases node' with
    | file => rfl
    | unreadable | dir => simp [Alike] at h
  | .unreadable, node', h => by
    cases node' with
    | unreadable => rfl
    | file | dir => simp [Alike] at h
  | .dir entries, node', h => by
    cases node' with
    | dir entries' =>
      rw [Alike] at h
      rw [outline, outline, AlikeEntries.outline_eq h]
    | file | unreadable => simp [Alike] at h

theorem AlikeEntries.outline_eq {above : List Text} : ∀ {entries entries' : List (Text × FileNode)},
    AlikeEntries R above entries entries' → outlineEntries entries = outlineEntries entries'
  | [], entries', h => by
    cases entries' with
    | nil => rfl
    | cons => simp [AlikeEntries] at h
  | (name, child) :: rest, entries', h => by
    cases entries' with
    | nil => simp [AlikeEntries] at h
    | cons e rest' =>
      rw [AlikeEntries] at h
      obtain ⟨rfl, children, rest⟩ := h
      rw [outlineEntries, outlineEntries, children.outline_eq, AlikeEntries.outline_eq rest]

end

theorem AlikeEntries.find? {entries entries' : List (Text × FileNode)} (h : AlikeEntries R above entries entries')
    (name : Text) : Option.Rel (Alike R (name :: above)) ((entries.find? fun e => e.1 == name).map Prod.snd)
      ((entries'.find? fun e => e.1 == name).map Prod.snd) := by
  induction entries generalizing entries' with
  | nil =>
    cases entries' with
    | nil => exact .none
    | cons => simp [AlikeEntries] at h
  | cons e entries ih =>
    cases entries' with
    | nil => simp [AlikeEntries] at h
    | cons e' entries' =>
      rw [AlikeEntries] at h
      obtain ⟨same, child, rest⟩ := h
      by_cases found : e.1 = name
      · rw [List.find?_cons_of_pos (by simp [found]), List.find?_cons_of_pos (by simp [← same, found])]
        rw [found] at child
        exact .some child
      · rw [List.find?_cons_of_neg (by simp [found]), List.find?_cons_of_neg (by simp [← same, found])]
        exact ih rest

theorem Alike.child? {node node' : FileNode} (h : Alike R above node node') (name : Text) :
    Option.Rel (Alike R (name :: above)) (node.child? name) (node'.child? name) := by
  cases node with
  | dir entries =>
    cases node' with
    | dir entries' =>
      rw [Alike] at h
      exact h.find? name
    | file | unreadable => simp [Alike] at h
  | file =>
    cases node' with
    | file => exact .none
    | unreadable | dir => simp [Alike] at h
  | unreadable =>
    cases node' with
    | unreadable => exact .none
    | file | dir => simp [Alike] at h

theorem Alike.isDir_eq {node node' : FileNode} (h : Alike R above node node') : node.isDir = node'.isDir := by
  rw [← isDir_outline, h.outline_eq, isDir_outline]

end FileNode

namespace FileTree

/-- Where segments lead from a place by their text alone, the last name first. Going above the root stays there. -/
def placeFrom (done : List Text) : List Text → List Text
  | [] => done
  | segment :: rest =>
    if Path.isSilent segment then placeFrom done rest
    else if segment = ".." then placeFrom done.tail rest
    else placeFrom (segment :: done) rest

/-- Where a path leads by its text alone: the names that it goes through, the last one first. -/
def place (tree : FileTree) (p : Path) : List Text := placeFrom [] ((tree.segments? p).getD [])

/-- Two trees differ in the contents of files only, which are related place by place. -/
structure Alike (R : List Text → List UInt8 → List UInt8 → Prop) (tree tree' : FileTree) : Prop where
  workingDir : tree.workingDir = tree'.workingDir
  root : FileNode.Alike R [] tree.root tree'.root

/-- A chain of nodes is alike another one, each node at its place. -/
def AlikeChain (R : List Text → List UInt8 → List UInt8 → Prop) : List Text → List FileNode → List FileNode → Prop
  | [], [node], [node'] => FileNode.Alike R [] node node'
  | name :: done, node :: above, node' :: above' =>
    FileNode.Alike R (name :: done) node node' ∧ AlikeChain R done above above'
  | _, _, _ => False

variable {R : List Text → List UInt8 → List UInt8 → Prop}

theorem AlikeChain.exists_cons {done : List Text} {chain chain' : List FileNode} (h : AlikeChain R done chain chain') :
    ∃ node above node' above', chain = node :: above ∧ chain' = node' :: above' ∧ FileNode.Alike R done node node' ∧
      ((above = [] ∧ above' = [] ∧ done = []) ∨ (above ≠ [] ∧ above' ≠ [] ∧ AlikeChain R done.tail above above')) := by
  unfold AlikeChain at h
  split at h
  · exact ⟨_, _, _, _, rfl, rfl, h, .inl ⟨rfl, rfl, rfl⟩⟩
  · rename_i name done node above node' above'
    refine ⟨_, _, _, _, rfl, rfl, h.1, .inr ⟨?_, ?_, h.2⟩⟩
    · rintro rfl
      cases done <;> exact h.2
    · rintro rfl
      cases done <;> rcases above with _ | ⟨_, _ | _⟩ <;> exact h.2
  · exact h.elim

/-- Trees that are alike are followed alike. -/
theorem AlikeChain.follow {done : List Text} {chain chain' : List FileNode} (h : AlikeChain R done chain chain')
    (segments : List Text) :
    (∃ cause, FileTree.follow chain segments = .error cause ∧ FileTree.follow chain' segments = .error cause) ∨
      ∃ reached reached', FileTree.follow chain segments = .ok reached ∧ FileTree.follow chain' segments = .ok reached' ∧
        AlikeChain R (placeFrom done segments) reached reached' := by
  induction segments generalizing done chain chain' with
  | nil => exact .inr ⟨chain, chain', by rw [FileTree.follow], by rw [FileTree.follow], h⟩
  | cons segment rest ih =>
    obtain ⟨node, above, node', above', rfl, rfl, alike, ends⟩ := h.exists_cons
    rw [FileTree.follow, FileTree.follow, ← alike.isDir_eq, placeFrom]
    cases node.isDir with
    | false => exact .inl ⟨_, rfl, rfl⟩
    | true =>
      simp only [Bool.not_true, Bool.false_eq_true, if_false]
      split
      · exact ih h
      · split
        · rcases ends with ⟨rfl, rfl, rfl⟩ | ⟨inner, inner', below⟩
          · exact ih h
          · rw [if_neg (by simpa using inner), if_neg (by simpa using inner')]
            exact ih below
        · have children := alike.child? segment
          generalize node.child? segment = found, node'.child? segment = found' at children
          cases children with
          | none => exact .inl ⟨_, rfl, rfl⟩
          | some child => exact ih ⟨child, h⟩

namespace Alike

variable {tree tree' : FileTree}

theorem outline_eq (h : Alike R tree tree') : tree.outline = tree'.outline := by
  obtain ⟨root, workingDir⟩ := tree
  obtain ⟨root', workingDir'⟩ := tree'
  rw [outline, outline, h.root.outline_eq, h.workingDir]

theorem holds_eq (h : Alike R tree tree') (p : Path) : tree.holds p = tree'.holds p := by
  rw [← holds_outline, h.outline_eq, holds_outline]

theorem isFile_eq (h : Alike R tree tree') (p : Path) : tree.isFile p = tree'.isFile p := by
  rw [← isFile_outline, h.outline_eq, isFile_outline]

theorem findFile_eq (h : Alike R tree tree') (policy : CasePolicy) (dir : Path) (name : Text) :
    tree.findFile policy dir name = tree'.findFile policy dir name := by
  rw [← findFile_outline, h.outline_eq, findFile_outline]

theorem files_eq (h : Alike R tree tree') (pattern : Path) : Glob.files tree pattern = Glob.files tree' pattern := by
  rw [← Glob.files_outline, h.outline_eq, Glob.files_outline]

theorem get? (h : Alike R tree tree') (p : Path) :
    Option.Rel (FileNode.Alike R (tree.place p)) (tree.get? p) (tree'.get? p) := by
  have named : tree'.segments? p = tree.segments? p := by
    unfold segments?
    rw [h.workingDir]
  unfold FileTree.get? lookup place
  rw [named]
  cases tree.segments? p with
  | none => exact .none
  | some segments =>
    have chain : AlikeChain R [] [tree.root] [tree'.root] := h.root
    rcases chain.follow segments with ⟨cause, error, error'⟩ | ⟨reached, reached', ok, ok', alike⟩
    · simp only [error, error']
      exact .none
    · obtain ⟨node, above, node', above', rfl, rfl, alike, _⟩ := alike.exists_cons
      simp only [ok, ok']
      exact .some alike

/-- What is read at a path of trees that are alike is related, or fails for the same cause. -/
theorem readBytes (h : Alike R tree tree') (p : Path) :
    (∃ cause, tree.readBytes p = .error cause ∧ tree'.readBytes p = .error cause) ∨
      ∃ bytes bytes', tree.readBytes p = .ok bytes ∧ tree'.readBytes p = .ok bytes' ∧ R (tree.place p) bytes bytes' := by
  unfold FileTree.readBytes
  have nodes := h.get? p
  generalize tree.get? p = found, tree'.get? p = found' at nodes
  cases nodes with
  | none => exact .inl ⟨_, rfl, rfl⟩
  | @some node node' alike =>
    cases node with
    | file bytes =>
      cases node' with
      | file bytes' =>
        rw [FileNode.Alike] at alike
        exact .inr ⟨bytes, bytes', rfl, rfl, alike⟩
      | unreadable | dir => simp [FileNode.Alike] at alike
    | unreadable =>
      cases node' with
      | unreadable => exact .inl ⟨_, rfl, rfl⟩
      | file | dir => simp [FileNode.Alike] at alike
    | dir =>
      cases node' with
      | dir => exact .inl ⟨_, rfl, rfl⟩
      | file | unreadable => simp [FileNode.Alike] at alike

end Alike

end FileTree

end SolutionGraph
