import SolutionGraph.Dgml.Document
import SolutionGraph.Include.Graph

/-!
# Include graphs as markup

Each node is named by its place in the graph and shown by its file name.
-/

namespace SolutionGraph.Include

/-- The category of a node. -/
def NodeKind.category : NodeKind → Text
  | .source => "Source"
  | .resolved => "Resolved"
  | .unresolved _ => "Unresolved"
  | .backReference _ => "BackReference"
  | .excluded => "Excluded"

/-- All categories. -/
def categories : List Text := ["Source", "Resolved", "Unresolved", "BackReference", "Excluded"]

/-- A node at its place. -/
def Node.written (n : Node) (id : Nat) : Dgml.Node :=
  ⟨Text.ofNat id, n.path.fileName?.getD n.path.text, some n.kind.category, n.path.text⟩

/-- The written form of an include graph. -/
def Graph.document (g : Graph) : Dgml.Document :=
  ⟨g.nodes.zipIdx.map fun (n, id) => n.written id,
    g.edges.map fun (parent, child) => ⟨Text.ofNat parent, Text.ofNat child⟩, categories⟩

end SolutionGraph.Include
