import SolutionGraph.Proofs.Include.Depiction
import SolutionGraph.Proofs.Include.Discovery

/-!
# Graphs of covering tables

A graph **charts** a search (`Charts`) when it depicts a table that covers what the source includes. Then nodes and files
are two views of the same, whatever the policy:

* **files**: what has a node was read (`Charts.exists_scanned`), and what was read has a node (`Charts.exists_node`);
* **paths**: the path of a file is one that the source reaches (`Charts.sought`), though maybe not the one under which the
  file was read;
* **edges**: an edge to a file, or to a leaf that refers back, comes from a directive that leads to this file
  (`Charts.leads`), and every such directive has an edge (`Charts.exists_shows`).
-/

namespace SolutionGraph.Include

/-- The reasons for a header that does not exist and for one that cannot be read differ. -/
theorem missingReason_ne_unreadableReason (searched : Nat) (cause : DiskError) :
    missingReason searched ≠ unreadableReason cause := by
  intro e
  have first := congrArg List.head? e
  cases first

/-- One key leads to another: a file of the table that has the one includes a file that has the other. -/
def Search.Leads (s : Search) (table : List ScannedFile) (a b : Text) : Prop :=
  ∃ f ∈ table, f.file.key s.policy = a ∧ ∃ q, s.Includes f.file q ∧ q.key s.policy = b

/-! ## Where the paths of nodes come from -/

/-- A directive of a file that was read leads to a path. -/
def Reading.Yields (r : Reading) (q : Path) : Prop :=
  ∃ key includes, r.contents key = .ok includes ∧ ∃ i ∈ includes, i.resolution = .found q

/-- A leaf for a directive that leads to no file, or to one that is excluded. -/
def Node.IsUnsought (n : Node) : Prop :=
  n.kind = .excluded ∨ ∃ searched, n.kind = .unresolved (missingReason searched)

/-- The path of a new node is where a directive leads, but for leaves without a file that is sought. -/
theorem Grows.yields {r : Reading} {stack : List Frame} {including : Path} {next : Nat} {finished : Finished}
    {includes : List Included} {g : Growth} (h : Grows r stack including next finished includes g)
    (lead : ∀ i ∈ includes, ∀ q, i.resolution = .found q → r.Yields q) : ∀ n ∈ g.nodes, n.IsUnsought ∨ r.Yields n.path := by
  induction h with
  | done => exact nofun
  | computed _ _ ih | shared _ _ _ ih => exact ih fun i hi => lead i (List.mem_cons_of_mem _ hi)
  | leaf here _ ih =>
    refine List.forall_mem_cons.2 ⟨?_, ih fun i hi => lead i (List.mem_cons_of_mem _ hi)⟩
    cases here with
    | excluded => exact .inl (.inl rfl)
    | missing => exact .inl (.inr ⟨_, rfl⟩)
    | back leads => exact .inr (lead _ List.mem_cons_self _ leads)
  | unreadable leads _ _ _ _ ih =>
    refine List.forall_mem_cons.2 ⟨?_, ih fun i hi => lead i (List.mem_cons_of_mem _ hi)⟩
    exact .inr (lead _ List.mem_cons_self _ leads)
  | file leads _ _ read _ _ ihDown ihRest =>
    refine List.forall_mem_cons.2 ⟨.inr (lead _ List.mem_cons_self _ leads), List.forall_mem_append.2 ⟨?_, ?_⟩⟩
    · exact ihDown fun i hi q found => ⟨_, _, read, i, hi, found⟩
    · exact ihRest fun i hi => lead i (List.mem_cons_of_mem _ hi)

/-- Every node of a graph is the source, or a leaf without a file that is sought, or where a directive leads. -/
theorem yields_of_mem_nodes {r : Reading} {resolved : ResolvedRules} {source : Path} {g : Graph}
    (made : Graph.ofReading r resolved source = .ok g) :
    ∀ n ∈ g.nodes, (n.kind = .source ∧ n.path = source) ∨ n.IsUnsought ∨ r.Yields n.path := by
  obtain ⟨includes, growth, read, grows, rfl⟩ := ofReading_eq_ok made
  have yields := grows.yields fun i hi q found => ⟨_, _, read, i, hi, found⟩
  exact List.forall_mem_cons.2 ⟨.inl ⟨rfl, rfl⟩, fun n mem => .inr (yields n mem)⟩

theorem Node.not_isUnsought {n : Node} (kind : n.kind.isFile) : ¬ n.IsUnsought := by
  rintro (excluded | ⟨searched, missing⟩)
  · rw [excluded] at kind
    cases kind
  · rw [missing] at kind
    cases kind

/-- A directive is one of a file that was read. -/
theorem Reading.includes?_of_contents {r : Reading} {key : Text} {includes : List Included} {i : Included}
    (read : r.contents key = .ok includes) (mem : i ∈ includes) : r.includes? key = some (.ok includes) := by
  unfold contents at read
  cases some : r.includes? key with
  | none =>
    -- a file that was not read has no directives
    rw [some, Option.getD_none, Except.ok.injEq] at read
    rw [← read] at mem
    cases mem
  | some known => rw [some, Option.getD_some] at read; rw [read]

/-- What a covering table has under a key is what a file of it includes. -/
theorem Search.Covers.exists_of_contents {s : Search} {source : Path} {table : List ScannedFile}
    (h : s.Covers source table) {key : Text} {includes : List Included} {i : Included}
    (read : Reading.contents ⟨s.policy, table⟩ key = .ok includes) (mem : i ∈ includes) :
    ∃ f ∈ table, f.file.key s.policy = key ∧ s.includesOf f.file = .ok includes := by
  obtain ⟨f, hf, same, known⟩ := h.exists_of_includes? (Reading.includes?_of_contents read mem)
  exact ⟨f, hf, same, known.symm⟩

theorem Search.Covers.reaches_of_yields {s : Search} {source : Path} {table : List ScannedFile}
    (h : s.Covers source table) {q : Path} (yields : Reading.Yields ⟨s.policy, table⟩ q) : s.Reaches source q := by
  obtain ⟨key, includes, read, i, mem, found⟩ := yields
  obtain ⟨f, hf, _, ok⟩ := h.exists_of_contents read mem
  exact (h.reached f hf).reaches.tail (Search.includes_iff.2 ⟨includes, ok, i, mem, found⟩)

/-! ## Charts -/

/-- The nodes of a graph depict the files that a search has read, and these cover what the source includes. -/
structure Charts (s : Search) (source : Path) (table : List ScannedFile) (nodes : List Node) (finished : Finished) :
    Prop where
  covers : s.Covers source table
  depicts : Depicts ⟨s.policy, table⟩ source nodes finished
  sought : ∀ n ∈ nodes, n.IsUnsought ∨ s.Reaches source n.path

theorem charts_ofReading {s : Search} {source : Path} {table : List ScannedFile} {resolved : ResolvedRules} {g : Graph}
    (covers : s.Covers source table) (made : Graph.ofReading ⟨s.policy, table⟩ resolved source = .ok g) :
    ∃ finished, Charts s source table g.nodes finished := by
  obtain ⟨finished, depicts⟩ := depicts_ofReading made
  refine ⟨finished, covers, depicts, fun n mem => ?_⟩
  rcases yields_of_mem_nodes made n mem with ⟨_, path⟩ | unsought | yields
  · exact .inr (path ▸ .refl)
  · exact .inl unsought
  · exact .inr (covers.reaches_of_yields yields)

namespace Charts

variable {s : Search} {source : Path} {table : List ScannedFile} {nodes : List Node} {finished : Finished} {id : Nat}

theorem contents_key (h : Charts s source table nodes finished) {f : ScannedFile} (hf : f ∈ table) :
    Reading.contents ⟨s.policy, table⟩ (f.file.key s.policy) = s.includesOf f.file := by
  rw [Reading.contents, h.covers.includes?_key hf, Option.getD_some]

theorem exists_of_known (h : Charts s source table nodes finished) {key : Text} (known : finished.node? key = some id) :
    ∃ n, nodes[id]? = some n ∧ n.path.key s.policy = key := by
  cases h.depicts.settled.standsFor known with
  | unreadable _ stands path | file _ stands path => exact ⟨_, stands, path⟩

/-- A directive that leads to a file has an edge, to the node of this file or to a leaf that refers back to it. -/
theorem exists_shows (h : Charts s source table nodes finished) {f : ScannedFile} (hf : f ∈ table) {q : Path}
    (includes : s.Includes f.file q) (known : finished.node? (f.file.key s.policy) = some id) :
    ∃ i child, i.resolution = .found q ∧ HasChild nodes id child ∧
      Shows ⟨s.policy, table⟩ nodes finished id i child := by
  obtain ⟨is, read, i, mem, found⟩ := Search.includes_iff.1 includes
  cases h.depicts.settled.standsFor known with
  | unreadable unread =>
    rw [h.covers.includes?_key hf, read] at unread
    cases unread
  | @file n is' read' stands _ _ children =>
    rw [h.contents_key hf, read, Except.ok.injEq] at read'
    subst read'
    have shown : i ∈ is.filter Included.isShown := by
      refine List.mem_filter.2 ⟨mem, ?_⟩
      rw [Included.isShown, found]
      rfl
    obtain ⟨child, hc, shows⟩ := exists_of_forall₂_right children.flip shown
    exact ⟨i, child, found, ⟨n, stands, hc⟩, shows⟩

/-- **What was read has a node.** -/
theorem exists_node (h : Charts s source table nodes finished) {f : ScannedFile} (hf : f ∈ table) :
    ∃ id, finished.node? (f.file.key s.policy) = some id := by
  have reach := h.covers.reached f hf
  generalize f.file = p at reach
  induction reach with
  | refl => exact ⟨0, h.depicts.known⟩
  | tail _ step ih =>
    obtain ⟨mem, includes⟩ := step
    obtain ⟨id, known⟩ := ih
    obtain ⟨g, hg, rfl⟩ := List.mem_map.1 mem
    obtain ⟨i, child, found, _, shows⟩ := h.exists_shows hg includes known
    cases shows with
    | file leads known' =>
      cases found.symm.trans leads
      exact ⟨child, known'⟩
    | @back _ target aim leads _ targeted isFile same =>
      cases found.symm.trans leads
      exact ⟨target, same ▸ h.depicts.node?_of_isFile targeted isFile⟩
    | excluded leads | missing leads => cases found.symm.trans leads

/-- A child that has been finished stands for a directive that leads to its file. -/
theorem found_of_known (h : Charts s source table nodes finished) {owner : Nat} {i : Included} {key : Text}
    (shows : Shows ⟨s.policy, table⟩ nodes finished owner i id) (known : finished.node? key = some id) :
    ∃ q, i.resolution = .found q ∧ q.key s.policy = key := by
  cases shows with
  | file leads known' =>
    obtain ⟨n, stands, path⟩ := h.exists_of_known known
    obtain ⟨n', stands', path'⟩ := h.exists_of_known known'
    cases stands.symm.trans stands'
    exact ⟨_, leads, path'.symm.trans path⟩
  -- a leaf for one directive is not the node of a file
  | back _ leaf | excluded _ leaf =>
    cases h.depicts.settled.standsFor known with
    | unreadable _ stands _ kind | file _ stands _ kind =>
      cases stands.symm.trans leaf
      cases kind
  | missing _ leaf =>
    cases h.depicts.settled.standsFor known with
    | unreadable _ stands _ kind =>
      cases stands.symm.trans leaf
      exact absurd (NodeKind.unresolved.inj kind) (missingReason_ne_unreadableReason _ _)
    | file _ stands _ kind =>
      cases stands.symm.trans leaf
      cases kind

/-- What a file of the graph includes is what the file of the table with its key does. -/
theorem includes_of_mem (h : Charts s source table nodes finished) {n : Node} {includes : List Included} {i : Included}
    {f : ScannedFile} {q : Path} (hf : f ∈ table) (same : f.file.key s.policy = n.path.key s.policy)
    (read : Reading.contents ⟨s.policy, table⟩ (n.path.key s.policy) = .ok includes) (mem : i ∈ includes)
    (found : i.resolution = .found q) : s.Includes f.file q := by
  have read' : s.includesOf f.file = .ok includes := by
    rw [← h.contents_key hf, same]
    exact read
  exact Search.includes_iff.2 ⟨includes, read', i, mem, found⟩

/-- **What has a node was read.** -/
theorem exists_scanned (h : Charts s source table nodes finished) {key : Text}
    (known : finished.node? key = some id) : ∃ f ∈ table, f.file.key s.policy = key := by
  have down : Descends nodes 0 id := by
    obtain ⟨n, stands, _⟩ := h.exists_of_known known
    exact h.depicts.descends (List.getElem?_eq_some_iff.1 stands).1
  induction down generalizing key with
  | refl =>
    obtain ⟨children, root⟩ := h.depicts.root
    obtain ⟨n, stands, path⟩ := h.exists_of_known known
    cases stands.symm.trans root
    obtain ⟨f, hf, e⟩ := h.covers.source_mem
    exact ⟨f, hf, by rw [e]; exact path⟩
  | tail _ edge ih =>
    obtain ⟨owner, includes, i, stands, isFile, read, mem, shows⟩ := h.depicts.shows edge
    obtain ⟨f, hf, same⟩ := ih (h.depicts.node?_of_isFile stands isFile)
    obtain ⟨q, found, rfl⟩ := h.found_of_known shows known
    exact h.covers.closed f hf q (h.includes_of_mem hf same read mem found)

/-- **A directive of a file leads** from the key of the file to that of the file that is found. -/
theorem leads (h : Charts s source table nodes finished) {n : Node} {includes : List Included} {i : Included} {q : Path}
    (stands : nodes[id]? = some n) (isFile : n.kind.isFile)
    (read : Reading.contents ⟨s.policy, table⟩ (n.path.key s.policy) = .ok includes) (mem : i ∈ includes)
    (found : i.resolution = .found q) : s.Leads table (n.path.key s.policy) (q.key s.policy) := by
  obtain ⟨f, hf, same⟩ := h.exists_scanned (h.depicts.node?_of_isFile stands isFile)
  exact ⟨f, hf, same, q, h.includes_of_mem hf same read mem found, rfl⟩

end Charts

end SolutionGraph.Include
