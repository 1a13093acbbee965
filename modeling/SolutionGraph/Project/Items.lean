import SolutionGraph.Glob.Expand
import SolutionGraph.Path.Normal
import SolutionGraph.Property.Value

/-!
# Items of a project

An item names its files by a list of paths and wildcards, less those that a list of exclusions matches. Files below the
project's directory are kept relative to it.
-/

namespace SolutionGraph.Project

/-- The paths that the entries of an item stand for. -/
def collectItems (tree : FileTree) (root : Path) (entries : List Text) : List Path :=
  entries.flatMap fun entry =>
    let path := Path.absolutize root entry
    if isWildcard entry then Glob.files tree path else [path]

/-- The patterns of a list of exclusions; what is no pattern excludes nothing. -/
def exclusions (root : Path) (exclude : Text) : List Glob.Pattern :=
  (splitList exclude).filterMap fun raw => Glob.read (Path.absolutize root raw).text

/-- A path as it is kept in the project. -/
def recorded (root path : Path) : Path := (path.dropStart? root).getD path

/-- The paths of an item, as they are kept in the project. -/
def expandItems (tree : FileTree) (root : Path) (included exclude : Text) : List Path :=
  let excluded := exclusions root exclude
  ((collectItems tree root (splitList included)).filter fun path =>
    !excluded.any fun pattern => pattern.matchesText path.text).map (recorded root)

end SolutionGraph.Project
