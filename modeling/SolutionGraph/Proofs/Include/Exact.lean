import SolutionGraph.Proofs.Include.Coverage
import SolutionGraph.Proofs.Include.Outcome
import SolutionGraph.Proofs.FileTree.Find

/-!
# Include graphs are the include relation

If keys tell the files apart, the graph of a source neither loses nor repeats one: `Graph.IsExact` says that its files are
those that the source reaches and that can be read, each once, that every other file that is reached has one leaf which
tells that it cannot be read, and that the children of a file stand for its directives in their order (`Charts.isExact`).
It holds of every include graph for which names are compared as they are written (`includeGraph_exact`).

Keys tell spellings of paths apart. That two spellings are two files is because all paths that are found are tidy, and a
tidy path has one spelling (`Charts.eq_of_same`).
-/

namespace SolutionGraph.Include

/-! ## Exactness -/

/-- A node tells that a file cannot be read. -/
def Node.IsUnreadable (n : Node) : Prop := ∃ rest, n.kind = .unresolved ("cannot read file" ++ rest)

theorem Node.isUnreadable {n : Node} {cause : DiskError} (kind : n.kind = .unresolved (unreadableReason cause)) :
    n.IsUnreadable := by
  have start : ("cannot read file: " : Text) = "cannot read file" ++ (": " : Text) := by decide
  have reason : unreadableReason cause = ("cannot read file" ++ (": " : Text)) ++ cause.message :=
    congrArg (fun text : Text => text ++ cause.message) start
  refine ⟨": " ++ cause.message, kind.trans (congrArg NodeKind.unresolved ?_)⟩
  exact reason.trans (List.append_assoc _ _ _)

/-- The node at a place stands for a file. -/
def Graph.IsNodeOf (g : Graph) (p : Path) (id : Nat) : Prop :=
  ∃ n, g.nodes[id]? = some n ∧ n.path = p ∧ (n.kind.isFile ∨ n.IsUnreadable)

/-- What stands for a directive of a file. -/
inductive Graph.Draws (g : Graph) (s : Search) (including : Path) (d : Directive) (id : Nat) : Prop
  /-- The node of the file that it leads to. -/
  | file {q : Path} (found : s.resolve including d = .found q) (node : g.IsNodeOf q id)
  /-- A leaf that refers back, for the file that it leads to. -/
  | back {q : Path} {target : Nat} (found : s.resolve including d = .found q)
    (leaf : g.nodes[id]? = some ⟨q, .backReference target, some d, []⟩)
  /-- A leaf with the path of the file that is excluded. -/
  | excluded {q : Path} (found : s.resolve including d = .excluded q)
    (leaf : g.nodes[id]? = some ⟨q, .excluded, some d, []⟩)
  /-- A leaf with the name as written. -/
  | missing {searched : Nat} (found : s.resolve including d = .missing searched)
    (leaf : g.nodes[id]? = some ⟨⟨d.name⟩, .unresolved (missingReason searched), some d, []⟩)

/-- A graph is exactly the include relation below a source. -/
structure Graph.IsExact (g : Graph) (s : Search) (source : Path) : Prop where
  /-- The files have different paths. -/
  distinct : g.files.Pairwise fun p q => ¬ p.same q
  /-- The files are those that the source reaches and that can be read. -/
  mem_files_iff : ∀ {p : Path}, p ∈ g.files ↔ s.Reaches source p ∧ ∃ text, s.tree.readLossy p = .ok text
  /-- A file that is reached and cannot be read has one leaf that says so. -/
  unreadable : ∀ {p : Path} {cause : DiskError}, s.Reaches source p → s.tree.readLossy p = .error cause →
    ∃! id : Nat, ∃ n : Node, g.nodes[id]? = some n ∧ n.path.same p ∧ n.IsUnreadable
  /-- Every file that is reached has a single node. -/
  single : ∀ {p : Path}, s.Reaches source p → ∃! id, g.IsNodeOf p id
  /-- The children of a file stand for its directives, but for those that are computed, in their order. -/
  children : ∀ {id : Nat} {n : Node}, g.nodes[id]? = some n → n.kind.isFile →
    ∃ text, s.tree.readLossy n.path = .ok text ∧
      List.Forall₂ (g.Draws s n.path) ((scanDirectives text).filter fun d => d.style != .computed) n.children

/-! ## Paths that are found -/

namespace Search

variable {s : Search} {p q : Path}

/-- A directive leads to files that exist, and to tidy paths only. -/
theorem isFile_of_resolve {d : Directive} (h : s.resolve p d = .found q) : s.tree.isFile q ∧ q.IsTidy := by
  obtain ⟨⟨dir, _, located⟩, _⟩ := located_of_resolve (.inl h)
  exact FileTree.findFile_eq_some (findFile_of_locate located)

theorem Reaches.isFile (h : s.Reaches p q) (isFile : s.tree.isFile p) : s.tree.isFile q := by
  cases h with
  | refl => exact isFile
  | tail _ step =>
    obtain ⟨_, _, _, _, found⟩ := step
    exact (isFile_of_resolve found).1

theorem Reaches.isTidy (h : s.Reaches p q) (tidy : p.IsTidy) : q.IsTidy := by
  cases h with
  | refl => exact tidy
  | tail _ step =>
    obtain ⟨_, _, _, _, found⟩ := step
    exact (isFile_of_resolve found).2

theorem resolve_eq_computed_iff {d : Directive} : s.resolve p d = .computed ↔ d.style = .computed := by
  unfold resolve
  split
  · rename_i computed
    simp [computed]
  · rename_i other
    refine ⟨fun leads => ?_, fun computed => absurd computed other⟩
    simp only at leads
    split at leads
    · split at leads <;> cases leads
    · cases leads

theorem filter_isShown_resolveAll (s : Search) (p : Path) (ds : List Directive) :
    (s.resolveAll p ds).filter Included.isShown =
      (ds.filter fun d => d.style != .computed).map fun d => ⟨d, s.resolve p d⟩ := by
  rw [resolveAll, List.filter_map]
  congr 1
  apply List.filter_congr
  intro d _
  rw [Function.comp_apply, Included.isShown, Bool.eq_iff_iff]
  simp [resolve_eq_computed_iff]

end Search

/-! ## Nodes and files -/

namespace Charts

variable {s : Search} {source : Path} {table : List ScannedFile} {nodes : List Node} {finished : Finished} {id : Nat}
  {n : Node}

/-- The node of a file is found under its key, also if the file cannot be read. -/
theorem known (h : Charts s source table nodes finished) (stands : nodes[id]? = some n)
    (kind : n.kind.isFile ∨ n.IsUnreadable) : finished.node? (n.path.key s.policy) = some id := by
  rcases kind with isFile | ⟨rest, kind⟩
  · exact h.depicts.node?_of_isFile stands isFile
  · have other : n.kind ≠ .source := by
      rw [kind]
      exact nofun
    cases h.depicts.accounted stands (h.depicts.ne_zero stands other) with
    | file _ known | unreadable _ known => exact known
    | leaf loose _ =>
      -- a leaf for a header that does not exist gives another reason
      rw [kind] at loose
      obtain ⟨searched, e⟩ := loose
      cases congrArg List.head? e

/-- The path of a file is one that the source reaches, also if the file cannot be read. -/
theorem reaches (h : Charts s source table nodes finished) (stands : nodes[id]? = some n)
    (kind : n.kind.isFile ∨ n.IsUnreadable) : s.Reaches source n.path := by
  rcases h.sought n (List.mem_of_getElem? stands) with (excluded | ⟨searched, missing⟩) | reach
  · simp [Node.IsUnreadable, excluded, NodeKind.isFile] at kind
  · rcases kind with isFile | ⟨rest, kind⟩
    · rw [missing] at isFile
      cases isFile
    · cases congrArg List.head? (NodeKind.unresolved.inj (missing.symm.trans kind))
  · exact reach

/-- A file that is reached has a node, which tells whether the file can be read. -/
theorem exists_of_reaches (h : Charts s source table nodes finished) (apart : s.TellsApart source) {p : Path}
    (reach : s.Reaches source p) : ∃ (id : Nat) (n : Node), nodes[id]? = some n ∧ n.path = p ∧
      (n.kind.isFile ∧ (∃ text, s.tree.readLossy p = .ok text) ∨
        n.IsUnreadable ∧ ∃ cause, s.tree.readLossy p = .error cause) := by
  obtain ⟨f, hf, rfl⟩ := h.covers.mem_of_reaches apart reach
  obtain ⟨id, known⟩ := h.exists_node hf
  cases h.depicts.settled.standsFor known with
  | @unreadable n cause unread stands path kind _ =>
    rw [h.covers.includes?_key hf, Option.some.injEq, Search.includesOf_eq_error_iff] at unread
    have kind := Node.isUnreadable kind
    exact ⟨id, n, stands, apart _ _ (h.reaches stands (.inr kind)) reach path, .inr ⟨kind, cause, unread⟩⟩
  | @file n includes read stands path kind _ =>
    rw [h.contents_key hf] at read
    obtain ⟨text, readable, _⟩ := Search.includesOf_eq_ok_iff.1 read
    exact ⟨id, n, stands, apart _ _ (h.reaches stands (.inl kind)) reach path, .inl ⟨kind, text, readable⟩⟩

/-- **Nodes of files with the same path are the same.** -/
theorem eq_of_same (h : Charts s source table nodes finished) (tidy : source.IsTidy) {other : Nat} {m : Node}
    (stands : nodes[id]? = some n) (kind : n.kind.isFile ∨ n.IsUnreadable) (stands' : nodes[other]? = some m)
    (kind' : m.kind.isFile ∨ m.IsUnreadable) (same : n.path.same m.path) : id = other := by
  have known := h.known stands kind
  have known' := h.known stands' kind'
  have path : n.path = m.path :=
    Path.IsTidy.eq_of_same ((h.reaches stands kind).isTidy tidy) ((h.reaches stands' kind').isTidy tidy) same
  rw [path] at known
  exact Option.some.inj (known.symm.trans known')

theorem draws {g : Graph} (h : Charts s source table g.nodes finished) (apart : s.TellsApart source) {p : Path}
    {d : Directive} {owner : Nat} (reach : ∀ q, s.resolve p d = .found q → s.Reaches source q)
    (shows : Shows ⟨s.policy, table⟩ g.nodes finished owner ⟨d, s.resolve p d⟩ id) : g.Draws s p d id := by
  cases shows with
  | @file q leads known =>
    refine .file leads ?_
    cases h.depicts.settled.standsFor known with
    | @unreadable n cause _ stands path kind _ =>
      have kind := Node.isUnreadable kind
      exact ⟨n, stands, apart _ _ (h.reaches stands (.inr kind)) (reach q leads) path, .inr kind⟩
    | @file n _ _ stands path kind _ =>
      exact ⟨n, stands, apart _ _ (h.reaches stands (.inl kind)) (reach q leads) path, .inl kind⟩
  | back leads leaf => exact .back leads leaf
  | excluded leads leaf => exact .excluded leads leaf
  | missing leads leaf => exact .missing leads leaf

/-- The text of a file that has a node can be read, and its directives are those that are drawn. -/
theorem exists_children {g : Graph} (h : Charts s source table g.nodes finished) (apart : s.TellsApart source)
    (stands : g.nodes[id]? = some n) (kind : n.kind.isFile) : ∃ text, s.tree.readLossy n.path = .ok text ∧
      List.Forall₂ (g.Draws s n.path) ((scanDirectives text).filter fun d => d.style != .computed) n.children := by
  have reach := h.reaches stands (.inl kind)
  obtain ⟨includes, read, children⟩ := h.depicts.children stands kind
  obtain ⟨f, hf, e⟩ := h.exists_scanned (h.depicts.node?_of_isFile stands kind)
  rw [← e, h.contents_key hf, apart _ _ (h.covers.reached f hf).reaches reach e] at read
  obtain ⟨text, readable, rfl⟩ := Search.includesOf_eq_ok_iff.1 read
  rw [Search.filter_isShown_resolveAll, List.forall₂_map_left_iff] at children
  have sought : ∀ d ∈ (scanDirectives text).filter fun d => d.style != .computed,
      ∀ q, s.resolve n.path d = .found q → s.Reaches source q :=
    fun d hd q found => reach.tail ⟨text, readable, d, (List.mem_filter.1 hd).1, found⟩
  have drawn := (List.forall₂_and_left _ _).2 ⟨sought, children⟩
  exact ⟨text, readable, drawn.imp fun _ _ both => h.draws apart both.1 both.2⟩

end Charts

theorem Graph.mem_files {g : Graph} {p : Path} :
    p ∈ g.files ↔ ∃ (id : Nat) (n : Node), g.nodes[id]? = some n ∧ n.kind.isFile ∧ n.path = p := by
  simp only [files, List.mem_map, List.mem_filter]
  constructor
  · rintro ⟨n, ⟨mem, kind⟩, path⟩
    obtain ⟨id, stands⟩ := List.mem_iff_getElem?.1 mem
    exact ⟨id, n, stands, kind, path⟩
  · rintro ⟨id, n, stands, kind, path⟩
    exact ⟨n, ⟨List.mem_of_getElem? stands, kind⟩, path⟩

/-! ## Exact graphs -/

namespace Charts

variable {s : Search} {source : Path} {table : List ScannedFile} {g : Graph} {finished : Finished} {p : Path}

theorem pairwise_files (h : Charts s source table g.nodes finished) (tidy : source.IsTidy) :
    g.files.Pairwise fun p q => ¬ p.same q := by
  rw [Graph.files, List.pairwise_map, List.pairwise_filter, List.pairwise_iff_getElem]
  intro i j hi hj lt kind kind' same
  -- two places in the list of files are two nodes
  have := h.eq_of_same tidy (List.getElem?_eq_getElem hi) (.inl kind) (List.getElem?_eq_getElem hj) (.inl kind') same
  omega

theorem mem_files_iff (h : Charts s source table g.nodes finished) (apart : s.TellsApart source) :
    p ∈ g.files ↔ s.Reaches source p ∧ ∃ text, s.tree.readLossy p = .ok text := by
  rw [Graph.mem_files]
  constructor
  · rintro ⟨id, n, stands, kind, rfl⟩
    obtain ⟨text, readable, _⟩ := h.exists_children apart stands kind
    exact ⟨h.reaches stands (.inl kind), text, readable⟩
  · rintro ⟨reach, text, readable⟩
    obtain ⟨id, n, stands, path, ⟨kind, _⟩ | ⟨_, cause, unread⟩⟩ := h.exists_of_reaches apart reach
    · exact ⟨id, n, stands, kind, path⟩
    · rw [readable] at unread
      cases unread

theorem existsUnique_unreadable (h : Charts s source table g.nodes finished) (apart : s.TellsApart source)
    (tidy : source.IsTidy) {cause : DiskError} (reach : s.Reaches source p)
    (unread : s.tree.readLossy p = .error cause) :
    ∃! id : Nat, ∃ n : Node, g.nodes[id]? = some n ∧ n.path.same p ∧ n.IsUnreadable := by
  obtain ⟨id, n, stands, rfl, ⟨_, text, readable⟩ | ⟨kind, _⟩⟩ := h.exists_of_reaches apart reach
  · rw [readable] at unread
    cases unread
  · refine ⟨id, ⟨n, stands, Path.same_refl _, kind⟩, ?_⟩
    rintro other ⟨m, stands', same, kind'⟩
    exact h.eq_of_same tidy stands' (.inr kind') stands (.inr kind) same

theorem existsUnique_node (h : Charts s source table g.nodes finished) (apart : s.TellsApart source)
    (tidy : source.IsTidy) (reach : s.Reaches source p) : ∃! id, g.IsNodeOf p id := by
  obtain ⟨id, n, stands, rfl, read⟩ := h.exists_of_reaches apart reach
  have kind : n.kind.isFile ∨ n.IsUnreadable := read.imp And.left And.left
  refine ⟨id, ⟨n, stands, rfl, kind⟩, ?_⟩
  rintro other ⟨m, stands', path, kind'⟩
  have same : m.path.same n.path := by
    rw [path]
    exact Path.same_refl _
  exact h.eq_of_same tidy stands' kind' stands kind same

/-- **A graph that charts a search is the include relation**, if keys tell the files apart and the source is tidy. -/
theorem isExact (h : Charts s source table g.nodes finished) (apart : s.TellsApart source) (tidy : source.IsTidy) :
    g.IsExact s source where
  distinct := h.pairwise_files tidy
  mem_files_iff := h.mem_files_iff apart
  unreadable := h.existsUnique_unreadable apart tidy
  single := h.existsUnique_node apart tidy
  children := h.exists_children apart

end Charts

theorem isExact_of_covers {project : Project} {tree : FileTree} {options : Options} {source : Path}
    {configuration : Text} {table : List ScannedFile} {g : Graph} (sensitive : options.policy = .sensitive)
    (covers : (project.headerSearch tree options configuration).Covers (project.listedPath source) table)
    (built : project.graphOf tree options table source configuration = .ok g) :
    g.IsExact (project.headerSearch tree options configuration) (project.listedPath source) := by
  obtain ⟨_, _, made⟩ := Project.graphOf_eq_ok built
  obtain ⟨finished, charts⟩ := charts_ofReading covers made
  exact charts.isExact (Search.tellsApart_of_sensitive sensitive _) (Path.isTidy_normalize _)

/-- **The include graph is exactly the include relation** if names are compared as written, whether the files are read one
after the other or by workers. -/
theorem includeGraph_exact {project : Project} {tree : FileTree} {options : Options} {source : Path}
    {configuration : Text} {g : Graph} (sensitive : options.policy = .sensitive) :
    ((project.includeGraph tree options none source configuration).1 = .ok g →
      g.IsExact (project.headerSearch tree options configuration) (project.listedPath source)) ∧
    ∀ d, (project.headerSearch tree options configuration).Run
        ((project.headerSearch tree options configuration).start (project.listedPath source)) d →
      d.visits = [] → project.graphOf tree options d.table source configuration = .ok g →
      g.IsExact (project.headerSearch tree options configuration) (project.listedPath source) := by
  constructor
  · intro built
    rw [Project.includeGraph_eq_graphOf] at built
    exact isExact_of_covers sensitive (Search.discover_covers _ _) built
  · intro d run last built
    have sound := (Search.sound_start _ _).run run
    exact isExact_of_covers sensitive (sound.covers last) built

/-- The graph of the sample is exact, so it has the header. -/
theorem exact_sample : ∃ g, (Sample.project.includeGraph Sample.tree .standard none "m.c" []).1 = .ok g ∧
    g.IsExact (Sample.project.headerSearch Sample.tree .standard []) (Sample.project.listedPath "m.c") ∧
    ("/w/a.h" : Path) ∈ g.files := by
  obtain ⟨g, built⟩ := Sample.exists_includeGraph []
  have exact := (includeGraph_exact rfl).1 built
  have reached : (Sample.project.headerSearch Sample.tree .standard []).Reaches (Sample.project.listedPath "m.c") "/w/a.h" :=
    .single Sample.includes_header
  exact ⟨g, built, exact, exact.mem_files_iff.2 ⟨reached, "#include \"m.c\"", rfl⟩⟩

end SolutionGraph.Include
