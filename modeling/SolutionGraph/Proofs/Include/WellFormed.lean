import SolutionGraph.Proofs.Include.Depiction
import SolutionGraph.Proofs.Include.Outcome

/-!
# Include graphs are well formed

Nodes refer to each other by their places, so a graph could be anything: references could lead nowhere, and children could
lead back to where they come from. `Graph.WellFormed` says that none of this is the case, and it holds of every include
graph (`includeGraph_wellFormed`), whatever the files are, whatever the policy and whatever a cache holds.

Nodes get their places before their children do, and a child may stand before or after its parent. What orders them is
when they are finished, and this is what `Settled` keeps; here it is only read off.
-/

namespace SolutionGraph.Include

/-- A graph is a rooted arena without cycles. -/
structure Graph.WellFormed (g : Graph) : Prop where
  /-- The root is the first node. -/
  root_eq : g.root = 0
  /-- There is a node for the root. -/
  root_lt : g.root < g.nodes.length
  /-- The root and no other node is the source. -/
  source_iff : ∀ {id : Nat} {n : Node}, g.nodes[id]? = some n → (n.kind = .source ↔ id = g.root)
  /-- Children are nodes. -/
  children_lt : ∀ {parent child : Nat}, HasChild g.nodes parent child → child < g.nodes.length
  /-- Back-references lead to nodes. -/
  target_lt : ∀ {id : Nat} {n : Node} {target : Nat}, g.nodes[id]? = some n → n.kind = .backReference target →
    target < g.nodes.length
  /-- Only files have children. -/
  isFile : ∀ {id : Nat} {n : Node}, g.nodes[id]? = some n → n.children ≠ [] → n.kind.isFile
  /-- Every node is below the root. -/
  descends : ∀ {id : Nat}, id < g.nodes.length → Descends g.nodes g.root id
  /-- No node is below itself. -/
  acyclic : ∀ id : Nat, ¬ Relation.TransGen (HasChild g.nodes) id id
  /-- No walk over children goes on forever. -/
  wellFounded : WellFounded fun child parent => HasChild g.nodes parent child

namespace Depicts

variable {r : Reading} {source : Path} {nodes : List Node} {finished : Finished}

theorem kind_eq_source_iff (h : Depicts r source nodes finished) {id : Nat} {n : Node} (stands : nodes[id]? = some n) :
    n.kind = .source ↔ id = 0 := by
  constructor
  · intro kind
    by_contra other
    cases h.accounted stands other with
    | file kind' _ | unreadable kind' _ => rw [kind] at kind'; cases kind'
    | leaf loose _ => rw [kind] at loose; exact loose
  · rintro rfl
    obtain ⟨children, root⟩ := h.root
    cases stands.symm.trans root
    rfl

theorem wellFormed (h : Depicts r source nodes finished) (configuration : Option ConfigurationName)
    (warnings : List Warning) : Graph.WellFormed ⟨nodes, 0, configuration, warnings⟩ := by
  obtain ⟨children, root⟩ := h.root
  refine ⟨rfl, (List.getElem?_eq_some_iff.1 root).1, h.kind_eq_source_iff, ?_, ?_, ?_, h.descends, h.acyclic,
    h.wellFounded⟩
  · intro parent child edge
    obtain ⟨_, _, _, _, _, _, _, shows⟩ := h.shows edge
    obtain ⟨n, stands⟩ := h.exists_of_shows shows
    exact (List.getElem?_eq_some_iff.1 stands).1
  · intro id n target stands kind
    have other : n.kind ≠ .source := by
      rw [kind]
      exact nofun
    obtain ⟨owner, edge⟩ := h.exists_owner stands (h.ne_zero stands other)
    obtain ⟨aim, targeted, _⟩ := h.back stands kind edge
    exact (List.getElem?_eq_some_iff.1 targeted).1
  · intro id n stands some
    obtain ⟨child, mem⟩ := List.exists_mem_of_ne_nil _ some
    exact h.isFile_of_mem_children stands mem

end Depicts

/-- **Every include graph is well formed**, whatever a cache holds, and whatever table the files were read into. -/
theorem includeGraph_wellFormed {project : Project} {tree : FileTree} {options : Options} {source : Path}
    {configuration : Text} {g : Graph} :
    (∀ cache, (project.includeGraph tree options cache source configuration).1 = .ok g → g.WellFormed) ∧
      ∀ table, project.graphOf tree options table source configuration = .ok g → g.WellFormed := by
  have general : ∀ table, project.graphOf tree options table source configuration = .ok g → g.WellFormed := by
    intro table built
    obtain ⟨_, _, made⟩ := Project.graphOf_eq_ok built
    obtain ⟨includes, growth, read, grows, rfl⟩ := ofReading_eq_ok made
    exact (depicts_grow read grows).wellFormed _ _
  refine ⟨fun cache built => ?_, general⟩
  rw [Project.includeGraph_eq_graphOf] at built
  exact general _ built

/-- The graph of the sample is well formed. -/
theorem wellFormed_sample : ∃ g, (Sample.project.includeGraph Sample.tree .standard none "m.c" []).1 = .ok g ∧
    g.WellFormed := by
  obtain ⟨g, built⟩ := Sample.exists_includeGraph []
  exact ⟨g, built, includeGraph_wellFormed.1 none built⟩

end SolutionGraph.Include
