import SolutionGraph.Project.Reader
import SolutionGraph.Solution.Listing

/-!
# Going on or giving up

A reading of a solution collects warnings, and may end with an error (`Reading`). A `Builder` knows whether it is strict: what
can be passed over ends a strict reading there and then, and is a warning of a lenient one (`Builder.reject`).
-/

namespace SolutionGraph

/-- Why a solution could not be read. -/
inductive SolutionError where
  | notFound (path : Path)
  | disk (path : Path) (cause : DiskError)
  | parse (path : Path) (line : Nat) (fault : Solution.Fault)
  | project (name : Text) (cause : ProjectError)
  | duplicateProject (id : ProjectId) (first second : Text)
  | unknownReference (project reference : Text)
  | unknownRoot (root : ProjectId)
  | unsupportedToolVersion (version : Text)
  deriving DecidableEq

namespace SolutionError

/-- The code of an error. -/
def code : SolutionError → Text
  | .notFound _ => "vcxgraph::solution::not_found"
  | .disk _ _ => "vcxgraph::solution::io"
  | .parse _ _ _ => "vcxgraph::solution::parse"
  | .project _ _ => "vcxgraph::solution::project"
  | .duplicateProject _ _ _ => "vcxgraph::solution::duplicate_project"
  | .unknownReference _ _ => "vcxgraph::solution::unknown_reference"
  | .unknownRoot _ => "vcxgraph::solution::unknown_root"
  | .unsupportedToolVersion _ => "vcxgraph::solution::unsupported_tool_version"

/-- How an error is reported. -/
def message : SolutionError → Text
  | .notFound path => "solution file " ++ path.text ++ " not found"
  | .disk path _ => "failed to read solution " ++ path.text
  | .parse path line fault => path.text ++ ":" ++ Text.ofNat line ++ ": " ++ fault.message
  | .project name _ => "project " ++ name ++ " could not be parsed"
  | .duplicateProject id first second =>
    "project id " ++ id.text ++ " is declared by both '" ++ first ++ "' and '" ++ second ++ "'"
  | .unknownReference name reference => "project '" ++ name ++ "' references unknown project " ++ reference
  | .unknownRoot root => "root project " ++ root.text ++ " is not in the solution"
  | .unsupportedToolVersion version => "unsupported tool version '" ++ version ++ "'"

/-- What the user may do about an error. -/
def help? : SolutionError → Option Text
  | .duplicateProject _ _ _ => some "give every project in the solution a unique ProjectGuid"
  | .unknownRoot _ => some "run `vcxgraph projects` to list project GUIDs"
  | .unsupportedToolVersion _ => some "use 9.0, 10.0, or 11.0 and later"
  | _ => none

/-- What lies behind an error. -/
def causes : SolutionError → List Text
  | .disk _ cause => [cause.message]
  | .project _ cause => cause.message :: cause.causes
  | _ => []

end SolutionError

namespace Solution

/-- A stage of a reading: from the warnings so far, it goes on with more of them, or it ends the reading. -/
abbrev Reading := StateT (List Warning) (Except SolutionError)

/-- Adds a warning. -/
def warn (w : Warning) : Reading Unit := modify fun warnings => warnings ++ [w]

/-- Who reads a solution. -/
structure Builder where
  /-- The solution file. -/
  path : Path
  /-- Whether the first thing that is wrong ends the reading. -/
  strict : Bool

/-- Something that can be passed over: an error that ends a strict reading, a warning of a lenient one. -/
def Builder.reject (b : Builder) (e : SolutionError) (w : Warning) : Reading Unit := if b.strict then throw e else warn w

/-- A problem of the solution file. -/
def Builder.problem (b : Builder) (found : Problem) : Reading Unit :=
  b.reject (.parse b.path found.line found.fault)
    (.parse b.path ("line " ++ Text.ofNat found.line ++ ": " ++ found.fault.message))

end Solution

end SolutionGraph
