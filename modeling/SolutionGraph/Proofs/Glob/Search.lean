import Mathlib.Data.List.Forall2
import SolutionGraph.Glob.Expand
import SolutionGraph.Proofs.FileTree.Location
import SolutionGraph.Proofs.Path.Canonical

/-!
# Two searches in step

A search with a pattern reads the node it stands at, the names below it, and the tree at the paths it comes to. So two
searches with one pattern, at places that have the same below them, go on in step, whatever relation between their paths
each further name keeps (`Keeps`, `lookUp_inStep`).

* **names**: those below a node have a property (`FileNode.AllNames`), and so have those that a pattern asks for itself,
  without a listing (`Pattern.AsksFor`);
* **absolute paths**: from an absolute path a search comes to absolute paths (`isAbsolute_of_mem_files`).
-/

namespace SolutionGraph

/-! ## Names below a node -/

namespace FileNode

variable {node child : FileNode} {names : List Text} {below : List Text × FileNode}
  {ok : Text → Prop}

/-- What is below a node is an entry of it, or is below one. -/
theorem exists_entry_of_mem_descendants (h : below ∈ node.descendants) : ∃ name child, (name, child) ∈ node.entries ∧
    below ∈ ([name], child) :: child.descendants.map fun (names, node) => (name :: names, node) := by
  cases node with
  | file | unreadable => simp [descendants] at h
  | dir entries =>
    rw [descendants, List.mem_flatMap] at h
    obtain ⟨listed, sorted, inside⟩ := h
    have unsorted : listed ∈ descendEntries entries := List.mem_mergeSort.1 sorted
    clear sorted
    change ∃ name child, (name, child) ∈ entries ∧ _
    induction entries with
    | nil =>
      rw [descendEntries] at unsorted
      cases unsorted
    | cons e rest ih =>
      obtain ⟨name, child⟩ := e
      rw [descendEntries] at unsorted
      rcases List.mem_cons.1 unsorted with rfl | further
      · exact ⟨name, child, List.mem_cons_self, inside⟩
      · obtain ⟨name', child', entry, found⟩ := ih further
        exact ⟨name', child', List.mem_cons_of_mem _ entry, found⟩

theorem mem_descendants_of_mem_entries {name : Text} (entry : (name, child) ∈ node.entries)
    (h : below ∈ ([name], child) :: child.descendants.map fun (names, node) => (name :: names, node)) :
    below ∈ node.descendants := by
  cases node with
  | file | unreadable => cases entry
  | dir entries => exact mem_descendants_of_mem entry h

/-- What is below something that is below a node is below the node. -/
theorem mem_descendants_append (h : (names, child) ∈ node.descendants) (inside : below ∈ child.descendants) :
    (names ++ below.1, below.2) ∈ node.descendants := by
  induction names generalizing node with
  | nil =>
    obtain ⟨name, top, _, here⟩ := exists_entry_of_mem_descendants h
    simp at here
  | cons first names ih =>
    obtain ⟨name, top, entry, here⟩ := exists_entry_of_mem_descendants h
    refine mem_descendants_of_mem_entries entry (List.mem_cons_of_mem _ ?_)
    rcases List.mem_cons.1 here with same | further
    · cases same
      exact List.mem_map_of_mem inside
    · obtain ⟨⟨names', child'⟩, deeper, same⟩ := List.mem_map.1 further
      cases same
      exact List.mem_map.2 ⟨_, ih deeper, rfl⟩

/-- Every name below a node has a property. -/
def AllNames (ok : Text → Prop) (node : FileNode) : Prop := ∀ below ∈ node.descendants, ∀ name ∈ below.1, ok name

theorem AllNames.of_mem_descendants (h : node.AllNames ok) (mem : (names, child) ∈ node.descendants) :
    (∀ name ∈ names, ok name) ∧ child.AllNames ok :=
  ⟨h _ mem, fun _ inside name here => h _ (mem_descendants_append mem inside) name (List.mem_append_right _ here)⟩

theorem AllNames.of_mem_entries (h : node.AllNames ok) {name : Text} (mem : (name, child) ∈ node.entries) :
    ok name ∧ child.AllNames ok := by
  have inside := h.of_mem_descendants (mem_descendants_of_mem_entries mem List.mem_cons_self)
  exact ⟨inside.1 name List.mem_cons_self, inside.2⟩

theorem AllNames.of_descend? (h : node.AllNames ok) (there : node.descend? names = some child) :
    (∀ name ∈ names, ok name) ∧ child.AllNames ok := by
  cases names with
  | nil =>
    cases there
    exact ⟨nofun, h⟩
  | cons name names => exact h.of_mem_descendants (mem_descendants there)

end FileNode

namespace Glob

/-- A name that a pattern asks for itself, whatever a listing has: its own text, or a name of dots that it matches. -/
def Pattern.AsksFor (p : Pattern) (name : Text) : Prop :=
  p.literal? = some name ∨ p.head? = some (.char '.') ∧ name ∈ dotNames ∧ p.matchesText name

/-! ## The step and the search -/

/-- A relation between the paths of two trees that have the same there. The names below are `ok`, and by such a name the
relation goes on. -/
structure Keeps (ok : Text → Prop) (tree tree' : FileTree) (R : Path → Path → Prop) : Prop where
  same {p p' : Path} (h : R p p') : tree.get? p = tree'.get? p'
  allNames {p p' : Path} {node : FileNode} (h : R p p') (there : tree.get? p = some node) : node.AllNames ok
  step {p p' : Path} {name : Text} (h : R p p') (fine : ok name) : R (step p name) (step p' name)
  join {p p' : Path} {name : Text} (h : R p p') (fine : ok name) : R (p.join ⟨name⟩) (p'.join ⟨name⟩)

section InStep

variable {ok : Text → Prop} {tree tree' : FileTree} {R : Path → Path → Prop}

theorem Keeps.holds_eq (keeps : Keeps ok tree tree' R) {p p' : Path} (h : R p p') : tree.holds p = tree'.holds p' := by
  rw [FileTree.holds, keeps.same h, FileTree.holds]

theorem Keeps.isFile_eq (keeps : Keeps ok tree tree' R) {p p' : Path} (h : R p p') : tree.isFile p = tree'.isFile p' := by
  rw [FileTree.isFile, keeps.same h, FileTree.isFile]

theorem Keeps.descend (keeps : Keeps ok tree tree' R) {p p' : Path} (h : R p p') {names : List Text}
    (fine : ∀ name ∈ names, ok name) : R (descend p names) (descend p' names) := by
  induction names generalizing p p' with
  | nil => exact h
  | cons name names ih =>
    obtain ⟨first, rest⟩ := List.forall_mem_cons.1 fine
    exact ih (keeps.step h first) rest

theorem forall₂_flatMap {α : Type} {l : List α} {f g : α → List Path} (h : ∀ a ∈ l, List.Forall₂ R (f a) (g a)) :
    List.Forall₂ R (l.flatMap f) (l.flatMap g) := by
  induction l with
  | nil => exact .nil
  | cons a l ih =>
    obtain ⟨first, rest⟩ := List.forall_mem_cons.1 h
    exact List.rel_append first (ih rest)

/-- **Two searches go on in step** from places that have the same below them. -/
theorem lookUp_inStep (keeps : Keeps ok tree tree' R) {ps : List Pattern} {path path' : Path} {node : FileNode}
    (asks : ∀ p ∈ ps, ∀ name, p.AsksFor name → ok name) (named : node.AllNames ok) (here : R path path') :
    List.Forall₂ R (lookUp tree ps path node) (lookUp tree' ps path' node) := by
  -- `**` takes the pattern after it along, so the induction is on the number of patterns
  induction count : ps.length using Nat.strongRecOn generalizing ps path path' node with
  | _ n ih =>
  cases ps with
  | nil =>
    rw [lookUp, lookUp]
    exact .nil
  | cons p rest =>
    obtain ⟨asked, asks'⟩ := List.forall_mem_cons.1 asks
    have fewer : rest.length < n := by simp [← count]
    have one {p p' : Path} (h : R p p') : List.Forall₂ R [p] [p'] := .cons h .nil
    have inner {path path' : Path} {node : FileNode} (named : node.AllNames ok) (here : R path path') :
        List.Forall₂ R (lookUp tree rest path node) (lookUp tree' rest path' node) := ih _ fewer asks' named here rfl
    -- what a next path leads to, if it exists
    have goOn {next next' : Path} (h : R next next') {nextNode : FileNode} (there : tree.get? next = some nextNode) :
        List.Forall₂ R (lookUp tree rest next nextNode) (lookUp tree' rest next' nextNode) :=
      inner (keeps.allNames h there) h
    rw [lookUp, lookUp]
    cases literal : p.literal? with
    | some name =>
      have next := keeps.step here (asked name (.inl literal))
      simp only [← keeps.holds_eq next, ← keeps.same next]
      split
      · split
        · exact one next
        · split
          · exact goOn next ‹_›
          · exact .nil
      · exact .nil
    | none =>
      simp only
      split
      · -- `**` goes through everything below
        refine forall₂_flatMap ?_
        rintro ⟨names, child⟩ mem
        obtain ⟨fine, named'⟩ := named.of_mem_descendants mem
        have next := keeps.descend here fine
        cases rest with
        | nil =>
          simp only
          split
          · exact one next
          · exact .nil
        | cons q rest' =>
          have fewer' : rest'.length < n := by simp only [List.length_cons] at fewer; omega
          simp only
          split
          · split
            · exact one next
            · exact ih _ fewer' (List.forall_mem_cons.1 asks').2 named' next rfl
          · exact .nil
      · refine List.rel_append (forall₂_flatMap fun name mem => ?_) (forall₂_flatMap ?_)
        · -- the names of dots that the pattern matches
          split at mem
          · rename_i starts
            obtain ⟨dots, matched⟩ := List.mem_filter.1 mem
            have next := keeps.join here (asked name (.inr ⟨starts.2, dots, matched⟩))
            rw [← keeps.same next]
            split
            · exact one next
            · split
              · exact goOn next ‹_›
              · exact .nil
          · cases mem
        · rintro ⟨name, child⟩ mem
          obtain ⟨fine, named'⟩ := named.of_mem_entries (List.mem_mergeSort.1 mem)
          have next := keeps.step here fine
          simp only
          split
          · split
            · exact one next
            · exact inner named' next
          · exact .nil

end InStep

/-! ## Absolute paths -/

variable {tree : FileTree} {path p : Path}

theorem step_of_isAbsolute (absolute : path.isAbsolute) (name : Text) : step path name = path.join ⟨name⟩ := by
  obtain ⟨rest, start, _⟩ := Path.components_of_isAbsolute absolute
  have apart : path.same ⟨"."⟩ = false := by
    rw [Path.same, start]
    rfl
  rw [step, apart, if_neg Bool.false_ne_true]

theorem keeps_isAbsolute (tree : FileTree) :
    Keeps (fun _ => True) tree tree fun p p' => p = p' ∧ p.isAbsolute where
  same := by
    rintro p _ ⟨rfl, _⟩
    rfl
  allNames _ _ := fun _ _ _ _ => trivial
  step := by
    rintro p _ name ⟨rfl, absolute⟩ _
    rw [step_of_isAbsolute absolute]
    exact ⟨rfl, Path.isAbsolute_join absolute _⟩
  join := by
    rintro p _ name ⟨rfl, absolute⟩ _
    exact ⟨rfl, Path.isAbsolute_join absolute _⟩

theorem isAbsolute_of_mem_lookUp {ps : List Pattern} {node : FileNode} (absolute : path.isAbsolute)
    (found : p ∈ lookUp tree ps path node) : p.isAbsolute := by
  have inStep : List.Forall₂ _ (lookUp tree ps path node) (lookUp tree ps path node) :=
    lookUp_inStep (keeps_isAbsolute tree) (fun _ _ _ _ => trivial) (fun _ _ _ _ => trivial) ⟨rfl, absolute⟩
  exact (List.forall₂_same.1 inStep p found).2

/-- **A pattern that starts at the root leads to absolute paths.** -/
theorem isAbsolute_of_mem_files (absolute : path.isAbsolute) (found : p ∈ files tree path) : p.isAbsolute := by
  have found := (List.mem_filter.1 found).1
  obtain ⟨t⟩ := path
  cases t with
  | nil => cases absolute
  | cons c body =>
    obtain rfl : c = '/' := by simpa [Path.isAbsolute] using absolute
    unfold expand at found
    simp only at found
    split at found
    · exact isAbsolute_of_mem_lookUp rfl found
    · cases found

theorem isFile_of_mem_files (found : p ∈ files tree path) : tree.isFile p := (List.mem_filter.1 found).2

end Glob

end SolutionGraph
