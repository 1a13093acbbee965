import Mathlib.Data.List.Basic
import SolutionGraph.Dgml.Include
import SolutionGraph.Dgml.Solution
import SolutionGraph.Proofs.Dgml.Document
import SolutionGraph.Proofs.Include.WellFormed
import SolutionGraph.Proofs.ProjectId
import SolutionGraph.Proofs.Solution.SearchPath

/-!
# What a written graph tells

Numbers and ids are written without quotes and are told by how they are written, so the text of an include graph tells its
nodes and edges (`Include.Graph.nodes_edges_of_text_eq`), and the text of a solution its projects and references
(`Solution.projects_references_of_text_eq`). Names and paths may be any text.

The document of a graph that was made from files is closed (`Document.IsClosed`): the children of a node are nodes
(`Include.Graph.isClosed_document`), and the references of a project lead to projects of the solution, each of which stands
under its own id (`Solution.Keyed`, `Solution.isClosed_dependencyGraph`).
-/

namespace SolutionGraph

/-! ## Numbers and ids -/

theorem Text.ofNat_injective : Function.Injective Text.ofNat := by
  intro n m same
  calc n = Nat.ofDigitChars 10 (Text.ofNat n) 0 := Nat.ofDigitChars_ten_toDigits.symm
    _ = Nat.ofDigitChars 10 (Text.ofNat m) 0 := by rw [same]
    _ = m := Nat.ofDigitChars_ten_toDigits

theorem Text.quote_not_mem_ofNat (n : Nat) : '"' ∉ Text.ofNat n := by
  intro mem
  have digit : '"'.isDigit := Nat.isDigit_of_mem_toDigits (by decide) (by decide) mem
  exact absurd digit (by decide)

theorem ProjectId.text_injective : Function.Injective ProjectId.text := by
  intro id other same
  have read : ProjectId.parse id.text = ProjectId.parse other.text := by rw [same]
  rw [ProjectId.parse_text, ProjectId.parse_text] at read
  exact Except.ok.inj read

theorem ProjectId.quote_not_mem_text (id : ProjectId) : '"' ∉ id.text :=
  fun mem => absurd (id.mem_symbols_of_mem_text mem) (by decide)

/-- The ends of every link are nodes. -/
def Dgml.Document.IsClosed (d : Dgml.Document) : Prop :=
  ∀ l ∈ d.links, (∃ n ∈ d.nodes, n.id = l.source) ∧ ∃ n ∈ d.nodes, n.id = l.target

/-! ## Include graphs -/

namespace Include

theorem NodeKind.category_mem (kind : NodeKind) : kind.category ∈ categories := by
  cases kind with
  | source => exact .head _
  | resolved => exact .tail _ (.head _)
  | unresolved => exact .tail _ (.tail _ (.head _))
  | backReference => exact .tail _ (.tail _ (.tail _ (.head _)))
  | excluded => exact .tail _ (.tail _ (.tail _ (.tail _ (.head _))))

theorem quote_not_mem_of_mem_categories : ∀ name ∈ categories, '"' ∉ name := by decide

namespace Graph

variable (g h : Graph)

theorem isPlain_nodes : ∀ n ∈ g.document.nodes, n.IsPlain := by
  intro n mem
  obtain ⟨⟨node, id⟩, _, rfl⟩ := List.mem_map.1 mem
  refine ⟨Text.quote_not_mem_ofNat id, fun name is => ?_⟩
  cases is
  exact quote_not_mem_of_mem_categories _ node.kind.category_mem

theorem isPlain_links : ∀ l ∈ g.document.links, l.IsPlain := by
  intro l mem
  obtain ⟨⟨parent, child⟩, _, rfl⟩ := List.mem_map.1 mem
  exact ⟨Text.quote_not_mem_ofNat parent, Text.quote_not_mem_ofNat child⟩

/-- What the nodes of a document show are the nodes of the graph. -/
theorem map_document_nodes : g.document.nodes.map (fun n => (n.reference, n.category.getD [])) =
    g.nodes.map fun n => (n.path.text, n.kind.category) := by
  calc g.document.nodes.map (fun n => (n.reference, n.category.getD []))
      = (g.nodes.zipIdx.map Prod.fst).map (fun n => (n.path.text, n.kind.category)) := by
        rw [document, List.map_map, List.map_map]
        rfl
    _ = g.nodes.map fun n => (n.path.text, n.kind.category) := by rw [List.zipIdx_map_fst]

variable {g h}

/-- **The text of an include graph** tells the paths and the categories of its nodes, and its edges. -/
theorem nodes_edges_of_text_eq (same : g.document.text = h.document.text) :
    g.nodes.map (fun n => (n.path.text, n.kind.category)) = h.nodes.map (fun n => (n.path.text, n.kind.category)) ∧
      g.edges = h.edges := by
  obtain ⟨nodes, links⟩ := Dgml.Document.nodes_links_of_text_eq
    (List.forall_mem_append.2 ⟨g.isPlain_nodes, h.isPlain_nodes⟩)
    (List.forall_mem_append.2 ⟨g.isPlain_links, h.isPlain_links⟩) same
  refine ⟨?_, ?_⟩
  · rw [← map_document_nodes, ← map_document_nodes, nodes]
  · refine List.map_injective_iff.2 ?_ links
    rintro ⟨parent, child⟩ ⟨parent', child'⟩ same
    injection same with parents children
    rw [Text.ofNat_injective parents, Text.ofNat_injective children]

theorem mem_edges {parent child : Nat} : (parent, child) ∈ g.edges ↔ HasChild g.nodes parent child := by
  constructor
  · intro mem
    obtain ⟨⟨n, id⟩, stands, mem⟩ := List.mem_flatMap.1 mem
    obtain ⟨_, inside, same⟩ := List.mem_map.1 mem
    cases same
    exact ⟨n, List.mem_zipIdx_iff_getElem?.1 stands, inside⟩
  · rintro ⟨n, stands, inside⟩
    exact List.mem_flatMap.2 ⟨(n, parent), List.mem_zipIdx_iff_getElem?.2 stands, List.mem_map_of_mem inside⟩

theorem exists_document_node {id : Nat} (inside : id < g.nodes.length) : ∃ n ∈ g.document.nodes, n.id = Text.ofNat id := by
  have stands : (g.nodes[id], id) ∈ g.nodes.zipIdx :=
    List.mem_zipIdx_iff_getElem?.2 (List.getElem?_eq_getElem inside)
  exact ⟨g.nodes[id].written id, List.mem_map.2 ⟨_, stands, rfl⟩, rfl⟩

theorem WellFormed.isClosed_document (wf : g.WellFormed) : g.document.IsClosed := by
  intro l mem
  obtain ⟨⟨parent, child⟩, edge, rfl⟩ := List.mem_map.1 mem
  have below : HasChild g.nodes parent child := mem_edges.1 edge
  have owner : parent < g.nodes.length := by
    obtain ⟨n, stands, _⟩ := below
    exact (List.getElem?_eq_some_iff.1 stands).1
  exact ⟨exists_document_node owner, exists_document_node (wf.children_lt below)⟩

/-- **The document of every include graph is closed**, whatever table the files were read into. -/
theorem isClosed_document {project : Project} {tree : FileTree} {options : Options} {table : List ScannedFile}
    {source : Path} {configuration : Text} (built : project.graphOf tree options table source configuration = .ok g) :
    g.document.IsClosed := by
  obtain ⟨_, _, made⟩ := Project.graphOf_eq_ok built
  obtain ⟨includes, growth, read, grows, rfl⟩ := ofReading_eq_ok made
  exact ((depicts_grow read grows).wellFormed _ _).isClosed_document

end Graph

end Include

/-! ## Solutions -/

namespace Solution

section Telling

variable (s t : Solution)

/-- The references of all projects, each with the project that has it. -/
def referencePairs (s : Solution) : List (ProjectId × ProjectId) :=
  s.projects.values.flatMap fun p => p.references.map fun id => (p.id, id)

theorem isPlain_nodes : ∀ n ∈ s.dependencyGraph.nodes, n.IsPlain := by
  intro n mem
  obtain ⟨p, _, rfl⟩ := List.mem_map.1 mem
  exact ⟨p.id.quote_not_mem_text, nofun⟩

theorem dependencyGraph_links : s.dependencyGraph.links = s.referencePairs.map fun (id, other) => ⟨id.text, other.text⟩ := by
  rw [referencePairs, List.map_flatMap]
  simp only [List.map_map]
  rfl

theorem isPlain_links : ∀ l ∈ s.dependencyGraph.links, l.IsPlain := by
  intro l mem
  rw [dependencyGraph_links] at mem
  obtain ⟨⟨id, other⟩, _, rfl⟩ := List.mem_map.1 mem
  exact ⟨id.quote_not_mem_text, other.quote_not_mem_text⟩

theorem dependencyGraph_nodes : s.dependencyGraph.nodes =
    (s.projects.values.map fun p => (p.id, p.name, p.path.text)).map fun (id, name, path) =>
      ⟨id.text, name, none, path⟩ := by
  rw [List.map_map]
  rfl

variable {s t}

/-- **The text of a solution** tells the ids, the names and the paths of its projects, and the references between them. -/
theorem projects_references_of_text_eq (same : s.dependencyGraph.text = t.dependencyGraph.text) :
    s.projects.values.map (fun p => (p.id, p.name, p.path.text)) =
        t.projects.values.map (fun p => (p.id, p.name, p.path.text)) ∧
      s.referencePairs = t.referencePairs := by
  obtain ⟨nodes, links⟩ := Dgml.Document.nodes_links_of_text_eq
    (List.forall_mem_append.2 ⟨s.isPlain_nodes, t.isPlain_nodes⟩)
    (List.forall_mem_append.2 ⟨s.isPlain_links, t.isPlain_links⟩) same
  rw [dependencyGraph_nodes, dependencyGraph_nodes] at nodes
  rw [dependencyGraph_links, dependencyGraph_links] at links
  refine ⟨List.map_injective_iff.2 ?_ nodes, List.map_injective_iff.2 ?_ links⟩
  · rintro ⟨id, name, path⟩ ⟨id', name', path'⟩ same
    injection same with ids names _ paths
    rw [ProjectId.text_injective ids, names, paths]
  · rintro ⟨id, other⟩ ⟨id', other'⟩ same
    injection same with sources targets
    rw [ProjectId.text_injective sources, ProjectId.text_injective targets]

end Telling

/-- Every project stands under its own id. -/
def Keyed (projects : OrderedMap ProjectId Project) : Prop := ∀ e ∈ projects.entries, e.2.id = e.1

section Keyed

variable {projects : OrderedMap ProjectId Project}

theorem keyed_linkedProjects (policy : CasePolicy) (ms : List Member) : Keyed (linkedProjects policy ms) := by
  intro e mem
  obtain ⟨m, _, rfl⟩ := List.mem_map.1 mem
  rfl

theorem Keyed.inheritPublicDirs (h : Keyed projects) : Keyed (inheritPublicDirs projects) := by
  intro e mem
  obtain ⟨e', mem', rfl⟩ := List.mem_map.1 mem
  exact h e' mem'

end Keyed

section Parsing

variable {tree : FileTree} {options : Options} {s : Solution}

theorem closed_keyed_of_parse (h : parse tree options = .ok s) : Closed s.projects ∧ Keyed s.projects := by
  obtain ⟨dialect, text, _, built⟩ := parse_eq_ok h
  obtain ⟨projects, inherits, closed, kept⟩ := exists_kept_projects built
  have keyed : Keyed projects := fun e mem => keyed_linkedProjects _ _ e (kept.subset mem)
  rw [inherits]
  exact ⟨closed.inheritPublicDirs, keyed.inheritPublicDirs⟩

/-- **The document of every solution is closed.** -/
theorem isClosed_dependencyGraph (h : parse tree options = .ok s) : s.dependencyGraph.IsClosed := by
  obtain ⟨closed, keyed⟩ := closed_keyed_of_parse h
  intro l mem
  obtain ⟨p, listed, mem⟩ := List.mem_flatMap.1 mem
  obtain ⟨other, edge, rfl⟩ := List.mem_map.1 mem
  refine ⟨⟨projectNode p, List.mem_map_of_mem listed, rfl⟩, ?_⟩
  obtain ⟨⟨id, _⟩, entry, rfl⟩ := List.mem_map.1 listed
  obtain ⟨⟨key, q⟩, entry', rfl⟩ := List.mem_map.1 ((closed _ entry).2 other edge)
  exact ⟨projectNode q, List.mem_map_of_mem (List.mem_map_of_mem entry'), congrArg ProjectId.text (keyed _ entry')⟩

end Parsing

end Solution

/-! ## Both kinds of graphs -/

namespace Dgml

/-- **A written graph tells what it is the graph of, and is closed.** Include graphs with one text have the same nodes, as far
as paths and categories go, and the same edges; solutions with one text have the same projects, as far as ids, names and paths
go, and the same references. In the document of an include graph, whatever the cache or the table that it was made from, and
in that of a solution, every link leads from a node to a node. -/
theorem text_determines_graph :
    (∀ g h : Include.Graph, g.document.text = h.document.text →
      g.nodes.map (fun n => (n.path.text, n.kind.category)) = h.nodes.map (fun n => (n.path.text, n.kind.category)) ∧
        g.edges = h.edges) ∧
    (∀ s t : Solution, s.dependencyGraph.text = t.dependencyGraph.text →
      s.projects.values.map (fun p => (p.id, p.name, p.path.text)) =
          t.projects.values.map (fun p => (p.id, p.name, p.path.text)) ∧
        s.referencePairs = t.referencePairs) ∧
    (∀ (project : Project) (tree : FileTree) (options : Include.Options) (source : Path) (configuration : Text)
        (g : Include.Graph),
      (∀ cache, (project.includeGraph tree options cache source configuration).1 = .ok g → g.document.IsClosed) ∧
        ∀ table, project.graphOf tree options table source configuration = .ok g → g.document.IsClosed) ∧
    ∀ (tree : FileTree) (options : Solution.Options) (s : Solution), Solution.parse tree options = .ok s →
      s.dependencyGraph.IsClosed := by
  refine ⟨fun g h => Include.Graph.nodes_edges_of_text_eq, fun s t => Solution.projects_references_of_text_eq,
    fun project tree options source configuration g => ⟨fun cache built => ?_, fun table => ?_⟩,
    fun tree options s => Solution.isClosed_dependencyGraph⟩
  · rw [Project.includeGraph_eq_graphOf] at built
    exact Include.Graph.isClosed_document built
  · exact Include.Graph.isClosed_document

namespace Sample

/-- A file that includes a header whose name needs escaping and that could not be read. -/
def unread (reason : Text) : Include.Graph :=
  ⟨[⟨"/w/m.c", .source, none, [1]⟩, ⟨"a\"&lt;\".h", .unresolved reason, some ⟨1, "a\"&lt;\".h", .angled⟩, []⟩], 0, none, []⟩

end Sample

/-- Graphs with one text differ in what is not written; the samples of an include graph and of a solution are closed. -/
theorem text_determines_graph_sample :
    ((Sample.unread "lost").document.text = (Sample.unread "locked").document.text ∧
      (Sample.unread "lost").edges = (Sample.unread "locked").edges) ∧
    (∃ g, (SolutionGraph.Sample.project.includeGraph SolutionGraph.Sample.tree .standard none "m.c" []).1 = .ok g ∧
      g.document.IsClosed) ∧
    ∃ s, Solution.parse Solution.Sample.tree Solution.Sample.options = .ok s ∧ s.dependencyGraph.IsClosed ∧
      s.dependencyGraph.text = { s with warnings := [] }.dependencyGraph.text ∧
      s.referencePairs = { s with warnings := [] }.referencePairs := by
  obtain ⟨graphs, solutions, included, parsed⟩ := text_determines_graph
  refine ⟨⟨rfl, (graphs _ _ rfl).2⟩, ?_, ?_⟩
  · obtain ⟨g, built⟩ := SolutionGraph.Sample.exists_includeGraph []
    exact ⟨g, built, (included _ _ _ _ _ g).1 none built⟩
  · cases outcome : Solution.parse Solution.Sample.tree Solution.Sample.options with
    | error =>
      have ok := Solution.Sample.parse_tree.1
      rw [outcome] at ok
      cases ok
    | ok s => exact ⟨s, rfl, parsed _ _ s outcome, rfl, (solutions s { s with warnings := [] } rfl).2⟩

end Dgml

end SolutionGraph
