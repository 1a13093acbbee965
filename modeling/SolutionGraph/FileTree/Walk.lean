import SolutionGraph.FileTree.Basic

/-!
# Walking a file tree

All that is below a directory, in the order of names and with every entry before what is below it.
-/

namespace SolutionGraph

namespace FileNode

/-- Entries in the order of their names. -/
def sortedEntries {α : Type} (entries : List (Text × α)) : List (Text × α) := entries.mergeSort fun a b => a.1.le b.1

mutual

/-- All that is below a node, by the names that lead to it: every entry before what is below it. -/
def descendants : FileNode → List (List Text × FileNode)
  | .dir entries => (sortedEntries (descendEntries entries)).flatMap Prod.snd
  | _ => []

/-- For each entry, itself and all that is below it. -/
def descendEntries : List (Text × FileNode) → List (Text × List (List Text × FileNode))
  | [] => []
  | (name, child) :: rest =>
    (name, ([name], child) :: (descendants child).map fun (names, node) => (name :: names, node)) :: descendEntries rest

end

end FileNode

end SolutionGraph
