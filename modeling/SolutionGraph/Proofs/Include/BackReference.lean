import Mathlib.Data.List.Chain
import SolutionGraph.Proofs.Include.Coverage
import SolutionGraph.Proofs.Include.Outcome

/-!
# Back-references mark the cycles

A directive that leads to an open file becomes a leaf that refers back, and a warning tells the files in between. That a
graph has such a leaf exactly if files include each other in a cycle is the argument of depth-first search: without such a
leaf every include is an edge, and edges have no cycles.

* **`Linked`**: the open files include one another, from the outermost to the innermost, whose directives are placed.
  Every rule of growing keeps this, so warnings of cycles and leaves that refer back come in pairs (`Grows.cycles`);
* **`Closes`**: the warning of a leaf is a chain of includes from the file that is repeated to itself;
* **`Charts.exists_backReference`**: no cycle goes without a leaf that refers back;
* **`includeGraph_tracesCycles`** puts this together for every include graph.
-/

namespace SolutionGraph

/-- The chain of files that a warning of a cycle tells. -/
def Warning.cycle? : Warning → Option (List Path)
  | .cyclicInclude chain => some chain
  | _ => none

namespace Include

/-- Whether a node refers back. -/
def NodeKind.isBackReference : NodeKind → Bool
  | .backReference _ => true
  | _ => false

/-- A chain of files closes the cycle of a node that refers back: it goes from the path of the target to that of the node,
which have the same key, and each of its files leads to the next. -/
structure Closes (policy : CasePolicy) (leads : Text → Text → Prop) (nodes : List Node) (n : Node)
    (chain : List Path) : Prop where
  ends : ∃ target aim middle, n.kind = .backReference target ∧ nodes[target]? = some aim ∧
    aim.path.key policy = n.path.key policy ∧ chain = aim.path :: (middle ++ [n.path])
  linked : (chain.map (Path.key policy)).IsChain leads

/-- The nodes of a graph that refer back are sound and complete for the cycles among the files of a table. -/
structure Graph.TracesCycles (g : Graph) (s : Search) (table : List ScannedFile) : Prop where
  /-- The target has the same key. -/
  target : ∀ {id : Nat} {n : Node} {target : Nat}, g.nodes[id]? = some n → n.kind = .backReference target →
    ∃ aim, g.nodes[target]? = some aim ∧ aim.path.key s.policy = n.path.key s.policy
  /-- The node is a child, and all nodes that own it are below the target. -/
  owners : ∀ {id : Nat} {n : Node} {target : Nat}, g.nodes[id]? = some n → n.kind = .backReference target →
    (∃ owner, HasChild g.nodes owner id) ∧ ∀ owner, HasChild g.nodes owner id → Descends g.nodes target owner
  /-- There is such a node exactly if there is a cycle. -/
  exists_iff : (∃ n ∈ g.nodes, n.kind.isBackReference) ↔ ∃ key, Relation.TransGen (s.Leads table) key key
  /-- The warnings of cycles tell the cycles of these nodes, in their order. -/
  warned : List.Forall₂ (Closes s.policy (s.Leads table) g.nodes) (g.nodes.filter fun n => n.kind.isBackReference)
    (g.warnings.filterMap Warning.cycle?)

/-! ## Open files include one another -/

/-- One key leads to another by what was read. -/
def Reading.Leads (r : Reading) (a b : Text) : Prop :=
  ∃ includes, r.contents a = .ok includes ∧ ∃ i ∈ includes, ∃ q, i.resolution = .found q ∧ q.key r.policy = b

/-- The open files include one another, and the innermost one has the given directives. -/
structure Linked (r : Reading) (stack : List Frame) (includes : List Included) : Prop where
  chain : stack.IsChain fun inner outer => r.Leads outer.key inner.key
  working : ∀ i ∈ includes, ∀ q, i.resolution = .found q → ∀ frame ∈ stack.head?, r.Leads frame.key (q.key r.policy)

section Linking

variable {r : Reading} {arena : List Node} {stack : List Frame} {including : Path} {next : Nat} {finished : Finished}
  {i : Included} {includes : List Included} {owner : Nat}

theorem Linked.tail (h : Linked r stack (i :: includes)) : Linked r stack includes :=
  ⟨h.chain, fun j hj => h.working j (List.mem_cons_of_mem _ hj)⟩

theorem Linked.push (h : Linked r stack (i :: includes)) {file : Path} {inner : List Included}
    (leads : i.resolution = .found file) (read : r.contents (file.key r.policy) = .ok inner) :
    Linked r (⟨file.key r.policy, next, file⟩ :: stack) inner := by
  refine ⟨List.isChain_cons.2 ⟨h.working i List.mem_cons_self file leads, h.chain⟩, ?_⟩
  intro j hj q found frame top
  cases top
  exact ⟨inner, read, j, hj, q, found, rfl⟩

/-- The files from an open one down to the innermost, and the file that a directive leads to, include one another. -/
theorem Linked.isChain (h : Linked r stack (i :: includes)) {file : Path} (leads : i.resolution = .found file)
    {inner outer : List Frame} {frame : Frame} (split : stack = inner ++ frame :: outer) :
    (((inner ++ [frame]).map Frame.key).reverse ++ [file.key r.policy]).IsChain r.Leads := by
  subst split
  have opened : (inner ++ [frame]).IsChain fun inner outer => r.Leads outer.key inner.key := by
    have chain := h.chain
    rw [List.append_cons] at chain
    exact chain.left_of_append
  refine List.IsChain.append ?_ (List.isChain_singleton _) ?_
  · rw [List.isChain_reverse, List.isChain_map]
    exact opened
  · intro key last key' here
    rw [List.head?_singleton, Option.mem_some_iff] at here
    subst here
    rw [List.getLast?_reverse, List.head?_map] at last
    obtain ⟨top, isTop, rfl⟩ := Option.map_eq_some_iff.1 last
    refine h.working i List.mem_cons_self file leads top ?_
    rw [List.append_cons, List.head?_append, isTop]
    rfl

theorem linked_source {source : Path} (read : r.contents (source.key r.policy) = .ok includes) :
    Linked r [⟨source.key r.policy, 0, source⟩] includes := by
  refine ⟨List.isChain_singleton _, ?_⟩
  intro j hj q found frame top
  cases top
  exact ⟨includes, read, j, hj, q, found, rfl⟩

/-- A leaf that is not shared refers back exactly if a cycle is warned of, and the warning tells the cycle. -/
theorem GrowsLeaf.cycles {node : Node} {warnings : List Warning}
    (h : GrowsLeaf r stack finished including i node warnings) (opened : Opened r arena stack owner)
    (linked : Linked r stack (i :: includes)) :
    List.Forall₂ (Closes r.policy r.Leads arena) ([node].filter fun n => n.kind.isBackReference)
      (warnings.filterMap Warning.cycle?) := by
  cases h with
  | excluded => exact .nil
  | missing => exact .nil
  | @back file frame chain leads _ cycle =>
    obtain ⟨inner, outer, split, same, rfl⟩ := cycleTo?_eq_some cycle
    have onStack : ∀ f ∈ inner ++ [frame], f ∈ stack := by
      intro f hf
      rw [split, List.append_cons]
      exact List.mem_append_left _ hf
    obtain ⟨key, _, aim, targeted, path, _⟩ :=
      opened frame (onStack frame (List.mem_append_right _ List.mem_cons_self))
    refine .cons ⟨⟨frame.id, aim, (inner.map Frame.file).reverse, rfl, targeted, ?_, ?_⟩, ?_⟩ .nil
    · rw [path, ← key, same]
    · rw [path, List.cons_append]
    · have keys : (inner ++ [frame]).map Frame.key = (inner ++ [frame]).map (Path.key r.policy ∘ Frame.file) :=
        List.map_congr_left fun f hf => (opened f (onStack f hf)).1
      have chain := linked.isChain leads split
      rw [keys] at chain
      simpa using chain

theorem filterMap_cycle?_unreadableWarnings (r : Reading) (including : Path) (d : Directive) (key : Text) :
    (r.unreadableWarnings including d key).filterMap Warning.cycle? = [] := by
  unfold Reading.unreadableWarnings
  split <;> rfl

/-- **Leaves that refer back and warnings of cycles come in pairs.** -/
theorem Grows.cycles {g : Growth} (h : Grows r stack including next finished includes g)
    (opened : Opened r arena stack owner) (linked : Linked r stack includes) (holds : Holds arena next g.nodes)
    (edges : ∀ child ∈ g.children, HasChild arena owner child) :
    List.Forall₂ (Closes r.policy r.Leads arena) (g.nodes.filter fun n => n.kind.isBackReference)
      (g.warnings.filterMap Warning.cycle?) := by
  induction h generalizing owner with
  | done => exact .nil
  | computed _ _ ih => exact ih opened linked.tail holds edges
  | shared _ _ _ ih =>
    have rest := ih opened linked.tail holds fun c hc => edges c (List.mem_append_right _ hc)
    rw [Growth.cons_warnings, List.filterMap_append, filterMap_cycle?_unreadableWarnings]
    exact rest
  | leaf here _ ih =>
    have rest := ih opened linked.tail holds.tail fun c hc => edges c (List.mem_append_right _ hc)
    rw [Growth.cons_nodes, List.filter_append, Growth.cons_warnings, List.filterMap_append]
    exact List.rel_append (here.cycles opened linked) rest
  | unreadable _ _ _ _ _ ih =>
    exact ih opened linked.tail holds.tail fun c hc => edges c (List.mem_append_right _ hc)
  | file leads _ _ read _ _ ihDown ihRest =>
    have edge := edges _ List.mem_cons_self
    have below := ihDown (opened.push holds.head rfl edge) (linked.push leads read) holds.tail.left
      fun c hc => ⟨_, holds.head, hc⟩
    have rest := ihRest opened linked.tail holds.tail.right fun c hc => edges c (List.mem_append_right _ hc)
    rw [Growth.cons_nodes, List.filter_append, Growth.cons_warnings, List.filterMap_append]
    exact List.rel_append below rest

/-- A graph that is made from what was read warns of the cycles of its leaves that refer back, if nothing else does. -/
theorem cycles_ofReading {resolved : ResolvedRules} {source : Path} {g : Graph}
    (made : Graph.ofReading r resolved source = .ok g) (quiet : resolved.warnings.filterMap Warning.cycle? = []) :
    List.Forall₂ (Closes r.policy r.Leads g.nodes) (g.nodes.filter fun n => n.kind.isBackReference)
      (g.warnings.filterMap Warning.cycle?) := by
  obtain ⟨includes, growth, read, grows, rfl⟩ := ofReading_eq_ok made
  rw [List.filterMap_append, quiet]
  exact grows.cycles (opened_source _ _ _ _) (linked_source read) (holds_source _ _) hasChild_source

end Linking

/-! ## Cycles among the files that were read -/

theorem Closes.mono {policy : CasePolicy} {leads leads' : Text → Text → Prop} {nodes : List Node} {n : Node}
    {chain : List Path} (h : Closes policy leads nodes n chain) (sub : ∀ a b, leads a b → leads' a b) :
    Closes policy leads' nodes n chain :=
  ⟨h.ends, h.linked.imp sub⟩

theorem transGen_of_isChain {α : Type} {R : α → α → Prop} {a b : α} {l : List α} (h : (a :: (l ++ [b])).IsChain R) :
    Relation.TransGen R a b := by
  induction l generalizing a with
  | nil => exact .single (List.isChain_cons_cons.1 h).1
  | cons c l ih =>
    obtain ⟨first, rest⟩ := List.isChain_cons_cons.1 h
    exact .head first (ih rest)

/-- The key of a node whose cycle is closed leads to itself. -/
theorem Closes.transGen {policy : CasePolicy} {leads : Text → Text → Prop} {nodes : List Node} {n : Node}
    {chain : List Path} (h : Closes policy leads nodes n chain) :
    Relation.TransGen leads (n.path.key policy) (n.path.key policy) := by
  obtain ⟨target, aim, middle, _, _, same, rfl⟩ := h.ends
  have linked := h.linked
  rw [List.map_cons, List.map_append, List.map_singleton, same] at linked
  exact transGen_of_isChain linked

/-- What leads on by a covering table are its files. -/
theorem Search.Covers.leads {s : Search} {source : Path} {table : List ScannedFile} (h : s.Covers source table)
    {a b : Text} (leads : Reading.Leads ⟨s.policy, table⟩ a b) : s.Leads table a b := by
  obtain ⟨includes, read, i, mem, q, found, rfl⟩ := leads
  obtain ⟨f, hf, same, ok⟩ := h.exists_of_contents read mem
  exact ⟨f, hf, same, q, Search.includes_iff.2 ⟨includes, ok, i, mem, found⟩, rfl⟩

namespace Charts

variable {s : Search} {source : Path} {table : List ScannedFile} {nodes : List Node} {finished : Finished}

/-- Without leaves that refer back, every include is an edge. -/
theorem exists_edge (h : Charts s source table nodes finished) (none : ∀ n ∈ nodes, ¬ n.kind.isBackReference)
    {a b : Text} {id : Nat} (leads : s.Leads table a b) (known : finished.node? a = some id) :
    ∃ child, HasChild nodes id child ∧ finished.node? b = some child := by
  obtain ⟨f, hf, rfl, q, includes, rfl⟩ := leads
  obtain ⟨i, child, found, edge, shows⟩ := h.exists_shows hf includes known
  cases shows with
  | file leads known' =>
    cases found.symm.trans leads
    exact ⟨child, edge, known'⟩
  | back _ leaf => exact absurd rfl (none _ (List.mem_of_getElem? leaf))
  | excluded leads | missing leads => cases found.symm.trans leads

/-- Without leaves that refer back, a walk over includes is a walk over edges. -/
theorem exists_walk (h : Charts s source table nodes finished) (none : ∀ n ∈ nodes, ¬ n.kind.isBackReference)
    {a b : Text} {id : Nat} (walk : Relation.TransGen (s.Leads table) a b) (known : finished.node? a = some id) :
    ∃ last, Relation.TransGen (HasChild nodes) id last ∧ finished.node? b = some last := by
  induction walk with
  | single leads =>
    obtain ⟨child, edge, known'⟩ := h.exists_edge none leads known
    exact ⟨child, .single edge, known'⟩
  | tail _ leads ih =>
    obtain ⟨mid, walk, known'⟩ := ih
    obtain ⟨child, edge, known''⟩ := h.exists_edge none leads known'
    exact ⟨child, walk.tail edge, known''⟩

/-- **No cycle goes unnoticed.** -/
theorem exists_backReference (h : Charts s source table nodes finished) {key : Text}
    (cycle : Relation.TransGen (s.Leads table) key key) : ∃ n ∈ nodes, n.kind.isBackReference := by
  by_contra missing
  have none : ∀ n ∈ nodes, ¬ n.kind.isBackReference := fun n mem back => missing ⟨n, mem, back⟩
  obtain ⟨_, ⟨f, hf, rfl, _⟩, _⟩ := Relation.TransGen.head'_iff.1 cycle
  obtain ⟨id, known⟩ := h.exists_node hf
  obtain ⟨last, walk, known'⟩ := h.exists_walk none cycle known
  -- the walk over edges comes back to where it began
  cases known.symm.trans known'
  exact h.depicts.acyclic id walk

end Charts

/-! ## Include graphs -/

theorem filterMap_cycle?_searchRules (project : Project) (policy : CasePolicy) (requested : Text) :
    (project.searchRules policy requested).warnings.filterMap Warning.cycle? = [] := by
  have quiet : (project.select requested).2.filterMap Warning.cycle? = [] := by
    unfold Project.select
    split <;> rfl
  unfold Project.searchRules
  split <;> simp_all

section Tracing

variable {project : Project} {tree : FileTree} {options : Options} {source : Path} {configuration : Text} {g : Graph}

/-- A table that covers what the source includes gives a graph that traces the cycles among its files. -/
theorem tracesCycles_of_covers {table : List ScannedFile}
    (covers : (project.headerSearch tree options configuration).Covers (project.listedPath source) table)
    (built : project.graphOf tree options table source configuration = .ok g) :
    g.TracesCycles (project.headerSearch tree options configuration) table := by
  obtain ⟨_, _, made⟩ := Project.graphOf_eq_ok built
  obtain ⟨finished, charts⟩ := charts_ofReading covers made
  have owned : ∀ {id : Nat} {n : Node} {target : Nat}, g.nodes[id]? = some n → n.kind = .backReference target →
      ∃ owner, HasChild g.nodes owner id := by
    intro id n target stands kind
    have other : n.kind ≠ .source := by
      rw [kind]
      exact nofun
    exact charts.depicts.exists_owner stands (charts.depicts.ne_zero stands other)
  have warned := (cycles_ofReading made (filterMap_cycle?_searchRules _ _ _)).imp
    fun _ _ closes => closes.mono fun _ _ => covers.leads
  refine ⟨?_, ?_, ⟨?_, ?_⟩, warned⟩
  · intro id n target stands kind
    obtain ⟨owner, edge⟩ := owned stands kind
    obtain ⟨aim, targeted, _, same, _⟩ := charts.depicts.back stands kind edge
    exact ⟨aim, targeted, same⟩
  · intro id n target stands kind
    refine ⟨owned stands kind, fun owner edge => ?_⟩
    obtain ⟨_, _, _, _, down⟩ := charts.depicts.back stands kind edge
    exact down
  · rintro ⟨n, mem, back⟩
    obtain ⟨chain, _, closes⟩ := exists_of_forall₂_right warned.flip (List.mem_filter.2 ⟨mem, back⟩)
    exact ⟨_, closes.transGen⟩
  · rintro ⟨key, cycle⟩
    exact charts.exists_backReference cycle

/-- **Back-references are sound and complete for the cycles of includes**, whatever the policy, and whether the files are
read one after the other or by workers. -/
theorem includeGraph_tracesCycles :
    ((project.includeGraph tree options none source configuration).1 = .ok g →
      g.TracesCycles (project.headerSearch tree options configuration)
        ((project.headerSearch tree options configuration).discover none (project.listedPath source)).1) ∧
    ∀ d, (project.headerSearch tree options configuration).Run
        ((project.headerSearch tree options configuration).start (project.listedPath source)) d →
      d.visits = [] → project.graphOf tree options d.table source configuration = .ok g →
      g.TracesCycles (project.headerSearch tree options configuration) d.table := by
  constructor
  · intro built
    rw [Project.includeGraph_eq_graphOf] at built
    exact tracesCycles_of_covers (Search.discover_covers _ _) built
  · intro d run last built
    have sound := (Search.sound_start _ _).run run
    exact tracesCycles_of_covers (sound.covers last) built

end Tracing

/-- The graph of the sample has a node that refers back, for its two files include each other. -/
theorem tracesCycles_sample : ∃ g, (Sample.project.includeGraph Sample.tree .standard none "m.c" []).1 = .ok g ∧
    ∃ n ∈ g.nodes, n.kind.isBackReference := by
  obtain ⟨g, built⟩ := Sample.exists_includeGraph []
  have traces := includeGraph_tracesCycles.1 built
  have covers := (Sample.project.headerSearch Sample.tree .standard []).discover_covers (Sample.project.listedPath "m.c")
  obtain ⟨f, hf, path⟩ := covers.source_mem
  have down : (Sample.project.headerSearch Sample.tree .standard []).Includes f.file "/w/a.h" :=
    path ▸ Sample.includes_header
  obtain ⟨f', hf', same⟩ := covers.closed f hf _ down
  have path' : f'.file = "/w/a.h" := congrArg Path.mk same
  have up : (Sample.project.headerSearch Sample.tree .standard []).Includes f'.file f.file := by
    rw [path, path']
    exact Sample.includes_source
  have there : Relation.TransGen ((Sample.project.headerSearch Sample.tree .standard []).Leads _) _ _ :=
    .single ⟨f, hf, rfl, _, down, rfl⟩
  exact ⟨g, built, traces.exists_iff.2 ⟨_, there.tail ⟨f', hf', same, _, up, rfl⟩⟩⟩

end Include

end SolutionGraph
