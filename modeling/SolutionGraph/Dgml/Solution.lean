import SolutionGraph.Dgml.Document
import SolutionGraph.Solution.Basic

/-!
# The graph of a solution

Each project is a node, and each direct reference a link.
-/

namespace SolutionGraph.Solution

/-- The node of a project. -/
def projectNode (p : Project) : Dgml.Node := ⟨p.id.text, p.name, none, p.path.text⟩

/-- The links of a project. -/
def projectLinks (p : Project) : List Dgml.Link := p.references.map fun id => ⟨p.id.text, id.text⟩

/-- The graph of the projects and their references. -/
def dependencyGraph (s : Solution) : Dgml.Document :=
  ⟨s.projects.values.map projectNode, s.projects.values.flatMap projectLinks, []⟩

end SolutionGraph.Solution
