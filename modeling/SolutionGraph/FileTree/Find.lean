import SolutionGraph.FileTree.Basic
import SolutionGraph.Path.Normal

/-!
# Finding files

`findFile` looks a written name up below a directory. Under the insensitive policy a component that does not exist as
spelled is sought in the directory's listing up to the case of its ASCII letters, and the path is spelled as on disk.
-/

namespace SolutionGraph.FileTree

/-- Goes one component further, by its spelling or else by the listing. -/
def stepIgnoringCase (tree : FileTree) (resolved : Path) : Component → Option Path
  | .name part =>
    let exact := resolved.join ⟨part⟩
    if tree.holds exact then some exact
    else do
      let listing ← tree.entries? resolved
      let found ← listing.find? fun entry => Text.eqIgnoringCase entry part
      return resolved.join ⟨found⟩
  | c => some (resolved.join ⟨c.text⟩)

/-- The file whose path agrees with the candidate up to case, spelled as on disk. -/
def findIgnoringCase (tree : FileTree) (candidate : Path) : Option Path := do
  let resolved ← candidate.components.foldlM tree.stepIgnoringCase ⟨[]⟩
  if tree.isFile resolved then some resolved else none

/-- The normal path of the file that `name` stands for, seen from `dir`. -/
def findFile (tree : FileTree) (policy : CasePolicy) (dir : Path) (name : Text) : Option Path :=
  let candidate := Path.absolutize dir name
  if tree.isFile candidate then some candidate
  else
    match policy with
    | .sensitive => none
    | .insensitive => tree.findIgnoringCase candidate

end SolutionGraph.FileTree
