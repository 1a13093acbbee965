import SolutionGraph.FileTree.Walk
import SolutionGraph.Glob.Pattern

/-!
# Files that a pattern stands for

`expand` looks a path with wildcards up in a file tree, component by component: a component without wildcards is looked up
directly, any other is matched against the names in the directory, in their order, and `**` goes through everything
below, where an entry comes before what is below it.
-/

namespace SolutionGraph.Glob

/-- Goes from a path by a name; the dot of the working directory is left out. -/
def step (path : Path) (name : Text) : Path := if path.same ⟨"."⟩ then ⟨name⟩ else path.join ⟨name⟩

/-- Goes from a path by several names. -/
def descend (path : Path) (names : List Text) : Path := names.foldl step path

/-- The names of the directory above and of the directory itself, which no listing has. -/
def dotNames : List Text := [['.', '.'], ['.']]

/-- Looks the components of a pattern up from a node at a path. -/
def lookUp (tree : FileTree) : List Pattern → Path → FileNode → List Path
  | [], _, _ => []
  | p :: rest, path, node =>
    let found (next : Path) : List Path :=
      if rest.isEmpty then [next]
      else
        match tree.get? next with
        | some nextNode => lookUp tree rest next nextNode
        | none => []
    match p.literal? with
    | some name =>
      let next := step path name
      let isDots := name = "." ∨ name = ".."
      if (isDots ∧ node.isDir) ∨ (¬isDots ∧ tree.holds next) then found next else []
    | none =>
      if p.isDeep then
        node.descendants.flatMap fun (names, child) =>
          let here := descend path names
          match rest with
          | [] => if child.isDir then [here] else []
          | q :: rest' =>
            if q.matchesText (names.getLast?.getD []) then
              if rest'.isEmpty then [here] else lookUp tree rest' here child
            else []
      else
        let dots := if node.isDir ∧ p.head? = some (.char '.') then dotNames.filter p.matchesText else []
        (dots.flatMap fun name => found (path.join ⟨name⟩)) ++
          (FileNode.sortedEntries node.entries).flatMap fun (name, child) =>
            if p.matchesText name then
              let here := step path name
              if rest.isEmpty then [here] else lookUp tree rest here child
            else []

/-- A list of patterns without a deep one right after another. -/
def collapseDeep : List Pattern → List Pattern
  | [] => []
  | p :: rest =>
    if p.isDeep then p :: collapseDeep (rest.dropWhile Pattern.isDeep) else p :: collapseDeep rest
termination_by ps => ps.length
decreasing_by
  · have := (List.dropWhile_suffix (l := rest) Pattern.isDeep).length_le
    simp only [List.length_cons]
    omega
  · simp

/-- The files and directories that a path with wildcards stands for. A path that is no pattern stands for none. -/
def expand (tree : FileTree) (path : Path) : List Path :=
  let (start, segments) : Path × List Text := match path.text with
    | '/' :: body => (⟨"/"⟩, Text.splitOn '/' body)
    | text => (⟨"."⟩, Text.splitOn '/' text)
  match read path.text, segments.mapM read, tree.get? start with
  | some _, some patterns, some node => lookUp tree (collapseDeep patterns) start node
  | _, _, _ => []

/-- The files that a path with wildcards stands for. -/
def files (tree : FileTree) (path : Path) : List Path := (expand tree path).filter tree.isFile

end SolutionGraph.Glob
