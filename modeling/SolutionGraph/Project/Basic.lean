import SolutionGraph.Configuration
import SolutionGraph.Path.Normal
import SolutionGraph.ProjectId

/-!
# Projects

A project lists its source files and headers, and has settings for each of its configurations. Listed paths are seen from
the directory of its descriptor.
-/

namespace SolutionGraph

/-- A project of a solution. -/
structure Project where
  /-- The id that the solution gives it. -/
  id : ProjectId
  /-- The name that is shown. -/
  name : Text
  /-- The path of its descriptor. -/
  path : Path
  /-- The directory of its descriptor. -/
  root : Path
  /-- The source files that it compiles, in order. -/
  sources : List Path
  /-- The headers that it lists, in order. -/
  headers : List Path
  /-- The settings of its configurations, in the order of their declaration. -/
  configurations : OrderedMap ConfigurationName Settings
  /-- The configuration that stands in for one that does not exist. -/
  defaultConfiguration : Option ConfigurationName
  /-- The projects that it references directly. -/
  references : List ProjectId

namespace Project

/-- The settings of a configuration. -/
def settings? (p : Project) (name : Text) : Option Settings := p.configurations.get? (.ofText name)

/-- The normal path of a listed file. -/
def listedPath (p : Project) (item : Path) : Path := Path.absolutize p.root item.text

/-- The normal paths of the source files. -/
def sourcePaths (p : Project) : List Path := p.sources.map p.listedPath

/-- Whether a file is listed in the project, lies below its directory, or lies below one of the directories that it
declares for its headers. -/
def ownsFile (p : Project) (policy : CasePolicy) (file : Path) : Bool :=
  ((p.sources ++ p.headers).any fun item => (p.listedPath item).key policy == file.key policy) ||
    file.isWithin policy p.root ||
    p.configurations.values.any fun s =>
      (s.includeDirs ++ s.publicIncludeDirs).any fun dir => file.isWithin policy dir

end Project

end SolutionGraph
