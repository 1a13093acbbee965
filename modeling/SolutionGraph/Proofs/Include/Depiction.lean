import Mathlib.Order.WellFounded
import SolutionGraph.Include.SourceGraph
import SolutionGraph.Proofs.Include.Arena

/-!
# Graphs depict what was read

A graph grows from the frame of its source. Its nodes **depict** what was read (`Depicts`, `depicts_ofReading`), and this
is all that is needed to read a graph:

* **files**: a file has one node, which is found under its key (`Depicts.node?_of_isFile`), and its children stand for its
  directives in their order (`Depicts.children`);
* **edges**: only files have children, and every child stands for a directive (`Depicts.shows`);
* **back-references**: a leaf that refers back has an owner, and its target is the node of the same file, from which every
  owner descends (`Depicts.back`);
* **walks**: no walk over children goes on forever (`Depicts.wellFounded`) or comes back (`Depicts.acyclic`).
-/

namespace SolutionGraph.Include

/-! ## Depictions -/

/-- The nodes of a graph depict what was read from a source: they are accounted for and below the root, and the files that
have been finished, with the source last, are settled. -/
structure Depicts (r : Reading) (source : Path) (nodes : List Node) (finished : Finished) : Prop where
  root : ∃ children, nodes[0]? = some ⟨source, .source, none, children⟩
  known : finished.node? (source.key r.policy) = some 0
  settled : Settled r nodes finished
  accounted : ∀ {id n}, nodes[id]? = some n → id ≠ 0 → Accounted r finished id n
  descends : ∀ {id}, id < nodes.length → Descends nodes 0 id

theorem holds_source (n : Node) (nodes : List Node) : Holds (n :: nodes) 1 nodes := by
  intro j m hm
  rw [Nat.add_comm, List.getElem?_cons_succ]
  exact hm

theorem opened_source (r : Reading) (source : Path) (children : List Nat) (nodes : List Node) :
    Opened r (⟨source, .source, none, children⟩ :: nodes) [⟨source.key r.policy, 0, source⟩] 0 := by
  intro f hf
  rw [List.mem_singleton] at hf
  subst hf
  exact ⟨rfl, .refl, _, rfl, rfl, rfl⟩

theorem hasChild_source {source : Path} {children : List Nat} {nodes : List Node} :
    ∀ child ∈ children, HasChild (⟨source, .source, none, children⟩ :: nodes) 0 child :=
  fun _ hc => ⟨_, rfl, hc⟩

/-- **The graph that grows from a source** depicts what was read. -/
theorem depicts_grow {r : Reading} {source : Path} {includes : List Included} {g : Growth}
    (read : r.contents (source.key r.policy) = .ok includes)
    (grows : Grows r [⟨source.key r.policy, 0, source⟩] source 1 [] includes g) :
    Depicts r source (⟨source, .source, none, g.children⟩ :: g.nodes) ((source.key r.policy, 0) :: g.finished) := by
  have holds := holds_source ⟨source, .source, none, g.children⟩ g.nodes
  have unfinished : Unfinished [⟨source.key r.policy, 0, source⟩] [] := fun _ _ => rfl
  have sourceOpen := grows.unfinished unfinished _ (List.mem_singleton.2 rfl)
  obtain ⟨settled, children⟩ := grows.settled unfinished (opened_source _ _ _ _) holds hasChild_source .nil
  refine ⟨⟨_, rfl⟩, Finished.node?_cons_self _ _ _, settled.cons sourceOpen (.file read rfl rfl rfl children), ?_, ?_⟩
  · intro id n stands other
    have high := (List.getElem?_eq_some_iff.1 stands).1
    rw [List.length_cons] at high
    exact (grows.accounted unfinished holds (Nat.one_le_iff_ne_zero.2 other) (by omega) stands).mono
      fun _ _ => Finished.node?_cons_of_eq_some sourceOpen
  · intro id high
    rw [List.length_cons] at high
    rcases Nat.eq_zero_or_pos id with rfl | low
    · exact .refl
    · exact grows.descends holds hasChild_source low (by omega)

/-- A graph that is made from what was read is grown from the source. -/
theorem ofReading_eq_ok {r : Reading} {resolved : ResolvedRules} {source : Path} {g : Graph}
    (h : Graph.ofReading r resolved source = .ok g) :
    ∃ includes growth, r.contents (source.key r.policy) = .ok includes ∧
      Grows r [⟨source.key r.policy, 0, source⟩] source 1 [] includes growth ∧
      g = ⟨⟨source, .source, none, growth.children⟩ :: growth.nodes, 0, resolved.configuration,
        resolved.warnings ++ growth.warnings⟩ := by
  unfold Graph.ofReading at h
  simp only at h
  split at h
  · cases h
  · rename_i includes read
    cases h
    exact ⟨includes, _, read, grow_grows _ _ _ _ _ _, rfl⟩

/-- **Every graph depicts what was read.** -/
theorem depicts_ofReading {r : Reading} {resolved : ResolvedRules} {source : Path} {g : Graph}
    (h : Graph.ofReading r resolved source = .ok g) : ∃ finished, Depicts r source g.nodes finished := by
  obtain ⟨includes, growth, read, grows, rfl⟩ := ofReading_eq_ok h
  exact ⟨_, depicts_grow read grows⟩

/-! ## Reading a depiction -/

namespace Depicts

variable {r : Reading} {source : Path} {nodes : List Node} {finished : Finished} {id : Nat} {n : Node}

/-- The root is the source. -/
theorem ne_zero (h : Depicts r source nodes finished) (stands : nodes[id]? = some n) (kind : n.kind ≠ .source) :
    id ≠ 0 := by
  rintro rfl
  obtain ⟨children, root⟩ := h.root
  cases stands.symm.trans root
  exact kind rfl

/-- The node of a file is found under its key. -/
theorem node?_of_isFile (h : Depicts r source nodes finished) (stands : nodes[id]? = some n) (kind : n.kind.isFile) :
    finished.node? (n.path.key r.policy) = some id := by
  by_cases root : id = 0
  · subst root
    obtain ⟨children, e⟩ := h.root
    cases stands.symm.trans e
    exact h.known
  · cases h.accounted stands root with
    | file _ known => exact known
    | unreadable reason _ => rw [reason] at kind; cases kind
    | leaf loose _ =>
      cases e : n.kind <;> simp_all [NodeKind.isFile, NodeKind.IsLoose]

/-- The children of a file stand for its directives, in their order. -/
theorem children (h : Depicts r source nodes finished) (stands : nodes[id]? = some n) (kind : n.kind.isFile) :
    ∃ includes, r.contents (n.path.key r.policy) = .ok includes ∧
      List.Forall₂ (Shows r nodes finished id) (includes.filter Included.isShown) n.children := by
  cases h.settled.standsFor (h.node?_of_isFile stands kind) with
  | unreadable _ stands' _ reason _ =>
    cases stands.symm.trans stands'
    rw [reason] at kind
    cases kind
  | file read stands' _ _ children =>
    cases stands.symm.trans stands'
    exact ⟨_, read, children⟩

theorem isFile_of_mem_children (h : Depicts r source nodes finished) (stands : nodes[id]? = some n) {child : Nat}
    (mem : child ∈ n.children) : n.kind.isFile := by
  by_cases root : id = 0
  · subst root
    obtain ⟨children, e⟩ := h.root
    cases stands.symm.trans e
    rfl
  · cases h.accounted stands root with
    | file kind _ => rw [kind]; rfl
    | leaf _ leaf => rw [leaf] at mem; cases mem
    | unreadable reason known =>
      cases h.settled.standsFor known with
      | unreadable _ stands' _ _ leaf =>
        cases stands.symm.trans stands'
        rw [leaf] at mem
        cases mem
      | file _ stands' _ kind _ =>
        cases stands.symm.trans stands'
        exact kind

/-- Every child stands for a directive of a file. -/
theorem shows (h : Depicts r source nodes finished) {child : Nat} (edge : HasChild nodes id child) :
    ∃ n includes i, nodes[id]? = some n ∧ n.kind.isFile ∧ r.contents (n.path.key r.policy) = .ok includes ∧
      i ∈ includes ∧ Shows r nodes finished id i child := by
  obtain ⟨n, stands, mem⟩ := edge
  have kind := h.isFile_of_mem_children stands mem
  obtain ⟨includes, read, children⟩ := h.children stands kind
  obtain ⟨i, hi, shows⟩ := exists_of_forall₂_right children mem
  exact ⟨n, includes, i, stands, kind, read, (List.mem_filter.1 hi).1, shows⟩

theorem exists_owner (h : Depicts r source nodes finished) (stands : nodes[id]? = some n) (other : id ≠ 0) :
    ∃ owner, HasChild nodes owner id := by
  rcases Relation.ReflTransGen.cases_tail (h.descends (List.getElem?_eq_some_iff.1 stands).1) with e | ⟨owner, _, edge⟩
  · exact absurd e other
  · exact ⟨owner, edge⟩

theorem exists_of_shows (h : Depicts r source nodes finished) {owner : Nat} {i : Included}
    (shows : Shows r nodes finished owner i id) : ∃ n, nodes[id]? = some n := by
  cases shows with
  | back _ leaf | excluded _ leaf | missing _ leaf => exact ⟨_, leaf⟩
  | file _ known =>
    cases h.settled.standsFor known with
    | unreadable _ stands | file _ stands => exact ⟨_, stands⟩

/-- The owner of a leaf that refers back descends from the node that it refers to, which is that of the same file. -/
theorem back (h : Depicts r source nodes finished) {target owner : Nat} (stands : nodes[id]? = some n)
    (kind : n.kind = .backReference target) (edge : HasChild nodes owner id) :
    ∃ aim, nodes[target]? = some aim ∧ aim.kind.isFile ∧ aim.path.key r.policy = n.path.key r.policy ∧
      Descends nodes target owner := by
  obtain ⟨_, _, i, _, _, _, _, shows⟩ := h.shows edge
  cases shows with
  | back _ leaf targeted isFile same down =>
    cases stands.symm.trans leaf
    cases kind
    exact ⟨_, targeted, isFile, same, down⟩
  | excluded _ leaf | missing _ leaf =>
    cases stands.symm.trans leaf
    cases kind
  | file _ known =>
    cases h.settled.standsFor known with
    | unreadable _ stands' _ kind' | file _ stands' _ kind' =>
      cases stands.symm.trans stands'
      rw [kind] at kind'
      cases kind'

theorem wellFounded (h : Depicts r source nodes finished) :
    WellFounded fun child parent => HasChild nodes parent child := by
  refine ⟨fun id => ?_⟩
  cases stands : nodes[id]? with
  | none =>
    refine ⟨_, fun child edge => ?_⟩
    obtain ⟨n, e, _⟩ := edge
    rw [stands] at e
    cases e
  | some n =>
    by_cases root : id = 0
    · subst root
      exact h.settled.acc h.known
    · cases h.accounted stands root with
      | file _ known | unreadable _ known => exact h.settled.acc known
      | leaf _ leaf => exact acc_of_children_eq_nil stands leaf

theorem acyclic (h : Depicts r source nodes finished) (id : Nat) : ¬ Relation.TransGen (HasChild nodes) id id := by
  intro cycle
  -- a cycle, walked the other way, descends forever
  have descent : Relation.TransGen (fun child parent => HasChild nodes parent child) id id :=
    Relation.transGen_swap.2 cycle
  exact h.wellFounded.transGen.irrefl.irrefl id descent

end Depicts

end SolutionGraph.Include
