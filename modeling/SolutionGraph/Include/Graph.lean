import SolutionGraph.Configuration
import SolutionGraph.Include.Directive
import SolutionGraph.Reach
import SolutionGraph.Warning

/-!
# Include graphs

An include graph is a list of nodes that refer to each other by their places in it. A file that is included several times
has one node, and a file that includes itself through others ends in a leaf that refers back (`NodeKind.backReference`).

* **views**: `files`, `edges` and `find?`;
* **outline**: `Graph.outline` walks the graph from its root in depth-first order, and `Graph.text` writes the walk as an
  indented tree in which the children of a node are listed once.
-/

namespace SolutionGraph.Include

/-- What a node stands for. -/
inductive NodeKind where
  /-- The file that the graph was made for. -/
  | source
  /-- A file on disk. -/
  | resolved
  /-- A directive without a file that can be read. -/
  | unresolved (reason : Text)
  /-- A file that includes the present one, directly or through others. -/
  | backReference (target : Nat)
  /-- A file in an excluded directory. -/
  | excluded
  deriving DecidableEq, Repr

/-- Whether a node stands for a file that was read. -/
def NodeKind.isFile : NodeKind → Bool
  | .source | .resolved => true
  | _ => false

/-- A node of an include graph. -/
structure Node where
  /-- The path of the file, or the name as written if there is none. -/
  path : Path
  /-- What the node stands for. -/
  kind : NodeKind
  /-- The directive that brought the node in; the source has none. -/
  directive : Option Directive
  /-- What the file includes, in the order of the text. -/
  children : List Nat
  deriving DecidableEq, Repr

/-- What a source file includes, directly and through others. -/
structure Graph where
  /-- The nodes in the order in which they came up. -/
  nodes : List Node
  /-- The node of the source file. -/
  root : Nat
  /-- The configuration whose rules were used. -/
  configuration : Option ConfigurationName
  /-- What was found on the way. -/
  warnings : List Warning

namespace Graph

/-! ## Views -/

/-- The files that were read, in the order in which they came up. -/
def files (g : Graph) : List Path := (g.nodes.filter fun n => n.kind.isFile).map Node.path

/-- The links from nodes to their children. -/
def edges (g : Graph) : List (Nat × Nat) :=
  g.nodes.zipIdx.flatMap fun (n, id) => n.children.map fun child => (id, child)

/-- The node of a file. -/
def find? (g : Graph) (path : Path) : Option Nat := g.nodes.findIdx? fun n => n.kind.isFile && n.path.same path

/-- The children of a node. -/
def children (g : Graph) (id : Nat) : List Nat :=
  match g.nodes[id]? with
  | some n => n.children.filter fun child => child < g.nodes.length
  | none => []

/-! ## Outline -/

/-- A line of the outline. -/
structure OutlineEntry where
  /-- The node that is shown. -/
  node : Node
  /-- How deep below the root it is shown. -/
  depth : Nat
  /-- Whether its children are left out because they are listed above. -/
  repeated : Bool
  deriving DecidableEq, Repr

/-- The outline of a stack of nodes with their depths: the children of a node come right after it, unless they have been
shown. -/
def outlineFrom (g : Graph) (shown : List Nat) : List (Nat × Nat) → List OutlineEntry
  | [] => []
  | (id, depth) :: rest =>
    match _node : g.nodes[id]? with
    | none => outlineFrom g shown rest
    | some n =>
      if id ∈ shown then ⟨n, depth, !n.children.isEmpty⟩ :: outlineFrom g shown rest
      else ⟨n, depth, false⟩ :: outlineFrom g (id :: shown) (n.children.map (fun child => (child, depth + 1)) ++ rest)
termination_by stack => (unseen (List.range g.nodes.length) shown, stack.length)
decreasing_by
  · exact Prod.Lex.right _ (by simp)
  · exact Prod.Lex.right _ (by simp)
  · rename_i new
    exact Prod.Lex.left _ _ (unseen_cons_lt (List.mem_range.2 (List.getElem?_eq_some_iff.1 _node).1) new)

/-- The outline of a graph from its root. -/
def outline (g : Graph) : List OutlineEntry := g.outlineFrom [] [(g.root, 0)]

end Graph

/-- What is noted behind the path of a node. -/
def NodeKind.mark : NodeKind → Text
  | .source | .resolved => []
  | .unresolved reason => " [unresolved: " ++ reason ++ "]"
  | .backReference _ => " [cycle]"
  | .excluded => " [excluded]"

/-- A line of the outline as text. -/
def Graph.OutlineEntry.line (e : OutlineEntry) : Text :=
  List.replicate (2 * e.depth) ' ' ++ e.node.path.text ++ e.node.kind.mark ++
    (if e.repeated then " (shown above)\n" else "\n" : Text)

/-- The graph as an indented tree. -/
def Graph.text (g : Graph) : Text := g.outline.flatMap OutlineEntry.line

end SolutionGraph.Include
