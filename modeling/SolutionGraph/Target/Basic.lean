import SolutionGraph.FileTree.Basic
import SolutionGraph.OrderedMap
import SolutionGraph.Property.Value
import SolutionGraph.Warning

/-!
# Targets

A build script declares targets. A target has prerequisites, and may hook itself before or after other targets. Names of
targets are compared up to the case of ASCII letters, by their keys.
-/

namespace SolutionGraph

/-- A target with its references to properties replaced. -/
structure Target where
  /-- The name as declared. -/
  name : Text
  /-- The targets that it depends on and calls, each once. -/
  prerequisites : List Text
  /-- The targets that it runs before. -/
  beforeTargets : List Text
  /-- The targets that it runs after. -/
  afterTargets : List Text
  /-- The script that declares it. -/
  script : Path
  /-- Its condition as written. -/
  condition : Option Text
  /-- Whether the condition holds; the prerequisites of a target that is not enabled are not followed. -/
  enabled : Bool
  deriving DecidableEq, Repr

namespace Target

/-- What names of targets are compared by. -/
def key (name : Text) : Text := Text.asciiLower name

/-- Declared targets by key, in the order of their first declaration. -/
abbrev Table := OrderedMap Text Target

/-- What is wrong with a script. -/
inductive ScriptFault where
  | disk (cause : DiskError)
  | malformed
  | notAProject (found : Text)
  deriving DecidableEq, Repr

/-- How a fault is noted beside the script. -/
def ScriptFault.message : ScriptFault → Text
  | .disk cause => cause.message
  | .malformed => "malformed XML"
  | .notAProject found => "expected a <Project> root element, found <" ++ found ++ ">"

end Target

/-- Why the targets of a script could not be told. -/
inductive TargetError where
  | notFound (path : Path)
  | badScript (path : Path) (fault : Target.ScriptFault)
  | unresolvedImport (script : Path) (name : Text)
  | targetNotFound (target : Text) (script : Path)
  | noTargets (script : Path)
  | invalidOverride (entry : Text)
  deriving DecidableEq, Repr

namespace TargetError

/-- The code of an error. -/
def code : TargetError → Text
  | .notFound _ => "vcxgraph::targets::not_found"
  | .badScript _ (.disk _) => "vcxgraph::targets::io"
  | .badScript _ _ => "vcxgraph::targets::parse"
  | .unresolvedImport _ _ => "vcxgraph::targets::unresolved_import"
  | .targetNotFound _ _ => "vcxgraph::targets::target_not_found"
  | .noTargets _ => "vcxgraph::targets::no_targets"
  | .invalidOverride _ => "vcxgraph::targets::invalid_override"

/-- How an error is reported. -/
def message : TargetError → Text
  | .notFound path => "build script " ++ path.text ++ " not found"
  | .badScript path (.disk _) => "failed to read " ++ path.text
  | .badScript path fault => path.text ++ ": " ++ fault.message
  | .unresolvedImport script name => script.text ++ ": cannot resolve import '" ++ name ++ "'"
  | .targetNotFound target script => "target '" ++ target ++ "' is not declared in " ++ script.text ++ " or its imports"
  | .noTargets script => script.text ++ " and its imports declare no targets"
  | .invalidOverride entry => "invalid property override '" ++ entry ++ "'"

/-- What the user may do about an error. -/
def help? : TargetError → Option Text
  | .unresolvedImport _ _ => some "add the directory holding the import with --search-path"
  | .invalidOverride _ => some "overrides are written as Name=Value pairs separated by ';'"
  | _ => none

/-- What lies behind an error. -/
def causes : TargetError → List Text
  | .badScript _ (.disk cause) => [cause.message]
  | _ => []

end TargetError

end SolutionGraph
