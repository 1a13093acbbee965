import SolutionGraph.Include.Growth
import SolutionGraph.SearchRules

/-!
# The include graph of a source file

`Project.includeGraph` puts the search and the growth of the graph together for a file of a project. It fails only on
account of the file itself: whatever is wrong with a header is told in the graph.
-/

namespace SolutionGraph

/-- Why there is no include graph. -/
inductive IncludeError where
  | notFound (path : Path)
  | unreadable (path : Path) (cause : DiskError)
  | notInProject (path : Path) (project : Text)
  deriving DecidableEq, Repr

namespace IncludeError

/-- The code of an error. -/
def code : IncludeError → Text
  | .notFound _ => "vcxgraph::include_graph::not_found"
  | .unreadable _ _ => "vcxgraph::include_graph::unreadable"
  | .notInProject _ _ => "vcxgraph::include_graph::not_in_project"

/-- How an error is reported. -/
def message : IncludeError → Text
  | .notFound path => "source file " ++ path.text ++ " not found"
  | .unreadable path _ => "failed to read source file " ++ path.text
  | .notInProject path project => path.text ++ " does not belong to project '" ++ project ++ "'"

/-- What the user may do about an error. -/
def help? : IncludeError → Option Text
  | .notInProject _ _ =>
    some "list the file in the project or place it under the project or one of its include directories"
  | _ => none

/-- Why a file could not be read. -/
def reason? : IncludeError → Option Text
  | .unreadable _ cause => some (Include.unreadableReason cause)
  | _ => none

end IncludeError

namespace Include

/-- How headers are sought. -/
structure Options where
  /-- How names are compared. -/
  policy : CasePolicy
  /-- The directories whose headers are not read, as written; relative ones are seen from the project's directory. -/
  excludedDirs : List Path

/-- The options if nothing is said about them. -/
def Options.standard : Options := ⟨.sensitive, []⟩

/-- The search for headers of a project, under the given rules. -/
def Search.ofRules (tree : FileTree) (project : Project) (options : Options) (resolved : ResolvedRules) : Search :=
  ⟨tree, options.policy, resolved.rules.directories,
    options.excludedDirs.map fun dir => Path.absolutize project.root dir.text, resolved.configuration⟩

/-- The graph of a source file from what a search has read. -/
def Graph.ofReading (r : Reading) (resolved : ResolvedRules) (source : Path) : Except IncludeError Graph :=
  let key := source.key r.policy
  match (r.includes? key).getD (.ok []) with
  | .error cause => .error (.unreadable source cause)
  | .ok includes =>
    let growth := grow r [⟨key, 0, source⟩] source 1 [] includes
    .ok ⟨⟨source, .source, none, growth.children⟩ :: growth.nodes, 0, resolved.configuration,
      resolved.warnings ++ growth.warnings⟩

end Include

open Include in
/-- The include graph of a source file of a project in a configuration, and the cache after that. -/
def Project.includeGraph (project : Project) (tree : FileTree) (options : Include.Options)
    (cache : Option DirectiveCache) (source : Path) (configuration : Text) :
    Except IncludeError Include.Graph × Option DirectiveCache :=
  let path := Path.absolutize project.root source.text
  if !tree.isFile path then (.error (.notFound path), cache)
  else if !project.ownsFile options.policy path then (.error (.notInProject path project.name), cache)
  else
    let resolved := project.searchRules options.policy configuration
    let (scanned, cache) := (Search.ofRules tree project options resolved).discover cache path
    (Graph.ofReading ⟨options.policy, scanned⟩ resolved path, cache)

end SolutionGraph
