import SolutionGraph.Project.Basic
import SolutionGraph.Reach
import SolutionGraph.Warning

/-!
# Solutions

A solution holds projects in the order of their listing, its configurations, and for each project the configuration that a
configuration of the solution builds.
-/

namespace SolutionGraph

/-- A solution with its projects. -/
structure Solution where
  /-- The path of the solution file. -/
  path : Path
  /-- The projects by id. -/
  projects : OrderedMap ProjectId Project
  /-- The configurations. -/
  configurations : List ConfigurationName
  /-- For each project, the configuration that a configuration of the solution builds. -/
  projectConfigurations : OrderedMap ProjectId (OrderedMap ConfigurationName ConfigurationName)
  /-- What was found wrong. -/
  warnings : List Warning

/-- The direct references of a project, if it is there. -/
def referencesIn (projects : OrderedMap ProjectId Project) (id : ProjectId) : List ProjectId :=
  match projects.get? id with
  | some p => p.references
  | none => []

/-- The projects that are reached from a list of them, with themselves, in the order of a walk that takes the last root and
the last reference first. -/
def reachedFrom (projects : OrderedMap ProjectId Project) (roots : List ProjectId) : List ProjectId :=
  preorder (fun id => (referencesIn projects id).reverse) projects.keys [] roots.reverse

namespace Solution

/-- The project of an id. -/
def project? (s : Solution) (id : ProjectId) : Option Project := s.projects.get? id

/-- The first project of a name, in any case. -/
def projectByName? (s : Solution) (name : Text) : Option Project :=
  s.projects.values.find? fun p => Text.eqIgnoringCase p.name name

/-- The configuration of a project that a configuration of the solution builds. -/
def projectConfiguration? (s : Solution) (id : ProjectId) (name : ConfigurationName) : Option ConfigurationName :=
  (s.projectConfigurations.get? id).bind fun names => names.get? name

/-- All projects that a project references, directly or through others, in depth-first pre-order. -/
def transitiveReferences (s : Solution) (id : ProjectId) : List ProjectId :=
  preorder (referencesIn s.projects) s.projects.keys [id] (referencesIn s.projects id)

end Solution

end SolutionGraph
