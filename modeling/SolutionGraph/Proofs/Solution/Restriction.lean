import SolutionGraph.Proofs.Solution.References
import SolutionGraph.Proofs.Solution.Strictness

/-!
# Keeping what is referenced

A reading that keeps only what is reached from its roots gives the part of the whole solution (`restrict`) that its
roots and their transitive references make up (`closure`).

* **what is kept**: the walk that decides it reaches what the walks from the single roots reach (`mem_closure`);
* **what a project inherits** comes from its references, and these are kept with it (`inheritPublicDirs_filter`);
* **configurations** are those of the kept projects (`configurationMappings_filter`);
* **`parse_referencedOnly`** puts this together.
-/

namespace SolutionGraph

namespace Solution

/-- The given ids with all projects that they reference, directly or through others. -/
def closure (s : Solution) (ids : List ProjectId) : List ProjectId := ids ++ ids.flatMap s.transitiveReferences

/-- The part of a solution that some of its projects make up. -/
def restrict (s : Solution) (ids : List ProjectId) : Solution :=
  { s with
    projects := s.projects.filter fun id _ => ids.contains id
    projectConfigurations := s.projectConfigurations.filter fun id _ => ids.contains id }

theorem keys_restrict (s : Solution) (ids : List ProjectId) :
    (s.restrict ids).projects.keys = s.projects.keys.filter fun id => ids.contains id := by
  rw [OrderedMap.keys, OrderedMap.keys, List.filter_map]
  rfl

theorem project?_restrict (s : Solution) (ids : List ProjectId) (id : ProjectId) :
    (s.restrict ids).project? id = if ids.contains id then s.project? id else none :=
  OrderedMap.get?_filter s.projects id

/-- The roots of a solution: the given ones, or else the projects that are built in some configuration, or else all. -/
def roots (s : Solution) (built given : List ProjectId) : List ProjectId :=
  if given ≠ [] then given
  else if ∃ id ∈ s.projects.keys, id ∈ built then s.projects.keys.filter (· ∈ built)
  else s.projects.keys

/-! ## What is kept -/

theorem referencesIn_of_not_mem {projects : OrderedMap ProjectId Project} {id : ProjectId} (h : id ∉ projects.keys) :
    referencesIn projects id = [] := by
  rw [referencesIn, OrderedMap.get?_eq_none_iff.2 h]

/-- **The two walks agree**: what one walk reaches from a list of projects, in its order, is the list with what the walks
for transitive references reach from each of them in theirs. -/
theorem mem_closure {s : Solution} {ids : List ProjectId} {id : ProjectId} :
    id ∈ s.closure ids ↔ id ∈ reachedFrom s.projects ids := by
  rw [closure, List.mem_append, List.mem_flatMap, reachedFrom, mem_preorder_nil, follows_reverse]
  simp only [List.mem_reverse]
  have transitive : ∀ root, id ∈ s.transitiveReferences root ↔
      id ≠ root ∧ Relation.ReflTransGen (Follows (referencesIn s.projects) s.projects.keys) root id :=
    fun root => mem_preorder_next referencesIn_of_not_mem
  simp only [transitive]
  constructor
  · rintro (mem | ⟨root, mem, _, reached⟩)
    · exact ⟨id, mem, .refl⟩
    · exact ⟨root, mem, reached⟩
  · rintro ⟨root, mem, reached⟩
    -- the transitive references of a project leave out the project itself, also on a cycle; a root is kept anyway
    by_cases same : id = root
    · exact .inl (same ▸ mem)
    · exact .inr ⟨root, mem, same, reached⟩

theorem reachedFrom_inheritPublicDirs (projects : OrderedMap ProjectId Project) (ids : List ProjectId) :
    reachedFrom (inheritPublicDirs projects) ids = reachedFrom projects ids := by
  have references : referencesIn (inheritPublicDirs projects) = referencesIn projects := by
    funext id
    rw [referencesIn, inheritPublicDirs, OrderedMap.get?_mapValues, referencesIn]
    cases projects.get? id <;> rfl
  rw [reachedFrom, references, keys_inheritPublicDirs, reachedFrom]

/-! ## What the kept projects have -/

section Kept

variable {projects : OrderedMap ProjectId Project} {p : ProjectId → Bool}

/-- **What a project inherits comes from its references**, so it inherits the same if they are kept with it. -/
theorem inheritPublicDirs_filter (closed : ∀ e ∈ projects.entries, p e.1 → ∀ id ∈ e.2.references, p id) :
    inheritPublicDirs (projects.filter fun id _ => p id) = (inheritPublicDirs projects).filter fun id _ => p id := by
  have same : ∀ e ∈ (projects.filter fun id _ => p id).entries,
      inheritInto (projects.filter fun id _ => p id) e.2 = inheritInto projects e.2 := by
    intro e mem
    obtain ⟨mem, kept⟩ := List.mem_filter.1 mem
    have targets : e.2.references.filterMap (projects.filter fun id _ => p id).get? =
        e.2.references.filterMap projects.get? := by
      apply List.filterMap_congr
      intro id edge
      rw [OrderedMap.get?_filter, if_pos (closed e mem kept id edge)]
    simp only [inheritInto, inheritedDirs, targets]
  rw [inheritPublicDirs, OrderedMap.mapValues_congr same, OrderedMap.mapValues_filter, inheritPublicDirs]

/-- The configurations of the kept projects. -/
theorem configurationMappings_filter (l : Listing) :
    configurationMappings l (projects.filter fun id _ => p id) =
      (configurationMappings l projects).filter fun id _ => p id := by
  unfold configurationMappings
  simp only [OrderedMap.contains_filter, ← List.filter_filter]
  rw [OrderedMap.foldl_modify_filter]
  rfl

end Kept

/-! ## Reading with and without a filter -/

section Filtering

variable {tree : FileTree} {options : Options} {path : Path} {dialect : Dialect} {l : Listing}

/-- Roots that are known are kept, and there is nothing to tell about them. -/
theorem rootSet_of_known {projects : OrderedMap ProjectId Project} {given : List ProjectId} {s : Solution}
    (keys : s.projects.keys = projects.keys) (known : ∀ id ∈ given, id ∈ projects.keys) :
    rootSet l given projects = (s.roots l.built given, []) := by
  unfold rootSet roots
  rw [keys]
  cases given with
  | nil =>
    have built : (projects.keys.filter fun id => l.built.contains id) = projects.keys.filter (· ∈ l.built) := by
      simp only [List.contains_eq_mem]
    simp only [List.isEmpty_nil, if_true, ne_eq, not_true, if_false, built]
    congr 1
    by_cases some : ∃ id ∈ projects.keys, id ∈ l.built
    · obtain ⟨id, mem, isBuilt⟩ := some
      rw [if_neg, if_pos ⟨id, mem, isBuilt⟩]
      rw [List.isEmpty_iff, List.filter_eq_nil_iff]
      exact fun none => none id mem (decide_eq_true isBuilt)
    · rw [if_pos, if_neg some]
      rw [List.isEmpty_iff, List.filter_eq_nil_iff]
      exact fun id mem isBuilt => some ⟨id, mem, of_decide_eq_true isBuilt⟩
  | cons first rest =>
    have all : ∀ id ∈ first :: rest, projects.contains id = true := by
      intro id mem
      rw [OrderedMap.contains_iff]
      exact known id mem
    have none : ((first :: rest).filter fun id => !projects.contains id) = [] := by
      rw [List.filter_eq_nil_iff]
      intro id mem
      simp [all id mem]
    rw [List.filter_eq_self.2 all, none]
    rfl

/-- The projects that a walk from the roots reaches are those of the closure. -/
theorem retainReached_eq {projects : OrderedMap ProjectId Project} {s : Solution}
    (whole : s.projects = inheritPublicDirs projects) (ids : List ProjectId) :
    retainReached projects ids = projects.filter fun id _ => (s.closure ids).contains id := by
  have same : ∀ id, (reachedFrom projects ids).contains id = (s.closure ids).contains id := by
    intro id
    rw [Bool.eq_iff_iff, List.contains_iff_mem, List.contains_iff_mem, mem_closure, whole,
      reachedFrom_inheritPublicDirs]
  simp only [retainReached, same]

/-- What a kept project references is kept. -/
theorem mem_closure_of_references {projects : OrderedMap ProjectId Project} {s : Solution}
    (whole : s.projects = inheritPublicDirs projects) (nodup : projects.keys.Nodup) (ids : List ProjectId) :
    ∀ e ∈ projects.entries, (s.closure ids).contains e.1 → ∀ id ∈ e.2.references, (s.closure ids).contains id := by
  simp only [List.contains_iff_mem, mem_closure, whole, reachedFrom_inheritPublicDirs]
  exact fun e mem reached id edge => mem_reachedFrom_of_references nodup mem reached edge

/-- The whole solution, restricted to what the roots reach. -/
theorem build_referencedOnly {s : Solution} {given : List ProjectId}
    (all : (build tree { options with referencedOnly := false } path dialect l).2 = .ok s)
    (known : ∀ id ∈ given, id ∈ s.projects.keys) :
    build tree { options with referencedOnly := true, roots := given } path dialect l =
      ((build tree { options with referencedOnly := false } path dialect l).1,
        .ok (s.restrict (s.closure (s.roots l.built given)))) := by
  cases unique : duplicate? [] l.entries with
  | some error => simp [build, unique] at all
  | none =>
    obtain ⟨nodup, more, read, _⟩ := exists_read_members tree options path unique
    simp only [build, unique, read, link_eq, Bool.false_eq_true, if_false, if_true, Except.ok.injEq] at all ⊢
    have whole : s.projects = inheritPublicDirs (linkedProjects options.policy (members tree options path l)) := by
      rw [← all]
    have keys : s.projects.keys = (linkedProjects options.policy (members tree options path l)).keys := by
      rw [whole, keys_inheritPublicDirs]
    rw [keys] at known
    rw [← keys_linkedProjects options.policy] at nodup
    -- directories are inherited from what is left after the filter, and that is enough for what is kept
    rw [rootSet_of_known keys known, retainReached_eq whole,
      inheritPublicDirs_filter (mem_closure_of_references whole nodup _), configurationMappings_filter]
    subst all
    rfl

theorem parse_with_filter (tree : FileTree) (options : Options) (only : Bool) (given : List ProjectId) :
    parse tree { options with referencedOnly := only, roots := given } = (opened tree options).bind fun file =>
      settle options.strict (build tree { options with referencedOnly := only, roots := given }
        (solutionFile tree options) file.1 (Listing.read file.2)) :=
  parse_eq tree { options with referencedOnly := only, roots := given }

/-- **Keeping what is referenced is restricting to the closure of the roots.** If a solution can be read as a whole,
then it can be read with any of its projects as roots, or without given ones; what is read is the part of the whole that
the roots and their transitive references make up, with nothing else changed. -/
theorem parse_referencedOnly {s : Solution} (given : List ProjectId)
    (all : parse tree { options with referencedOnly := false } = .ok s) (known : ∀ id ∈ given, id ∈ s.projects.keys) :
    ∃ text, tree.readText (solutionFile tree options) = .ok text ∧
      parse tree { options with referencedOnly := true, roots := given } =
        .ok (s.restrict (s.closure (s.roots (Listing.read text).built given))) := by
  rw [parse_with_filter tree options false options.roots] at all
  rw [parse_with_filter tree options true given]
  cases file : opened tree options with
  | error e =>
    rw [file] at all
    cases all
  | ok found =>
    obtain ⟨dialect, text⟩ := found
    rw [file] at all
    obtain ⟨strict, all⟩ := settle_eq_ok.1 all
    refine ⟨text, readText_of_opened file, settle_eq_ok.2 ?_⟩
    rw [build_referencedOnly all known]
    exact ⟨strict, rfl⟩

end Filtering

namespace Sample

/-- Three projects, of which the first one depends on the second one. -/
def trio : Layout :=
  ⟨"12.00", [entryOf "A" (idOf 1) [idOf 2], entryOf "B" (idOf 2) [], entryOf "C" (idOf 3) []], [], [], []⟩

theorem parse_trio : (parse (treeOf trio) { reading [idOf 1] with referencedOnly := false }).toOption.map
    (fun s => (s.projects.keys, referencesIn s.projects (idOf 1), referencesIn s.projects (idOf 2))) =
      some ([idOf 1, idOf 2, idOf 3], [idOf 2], []) := by
  decide +kernel

end Sample

/-- With the first project of the sample as root, the first two are kept as they are. -/
theorem referencedOnly_sample : ∃ s s',
    parse (Sample.treeOf Sample.trio) { Sample.reading [Sample.idOf 1] with referencedOnly := false } = .ok s ∧
      s.projects.keys = [Sample.idOf 1, Sample.idOf 2, Sample.idOf 3] ∧
    parse (Sample.treeOf Sample.trio) (Sample.reading [Sample.idOf 1]) = .ok s' ∧
      s'.projects.keys = [Sample.idOf 1, Sample.idOf 2] ∧ ∀ id ∈ s'.projects.keys, s'.project? id = s.project? id := by
  have whole := Sample.parse_trio
  cases parsed : parse (Sample.treeOf Sample.trio) { Sample.reading [Sample.idOf 1] with referencedOnly := false } with
  | error e =>
    rw [parsed] at whole
    cases whole
  | ok s =>
    simp only [parsed, Except.toOption, Option.map_some, Option.some.injEq, Prod.mk.injEq] at whole
    obtain ⟨keys, first, second⟩ := whole
    have known : ∀ id ∈ [Sample.idOf 1], id ∈ s.projects.keys := by
      rw [keys]
      decide
    obtain ⟨text, _, part⟩ := parse_referencedOnly [Sample.idOf 1] parsed known
    have closure : s.closure [Sample.idOf 1] = [Sample.idOf 1, Sample.idOf 2] := by
      have new : Sample.idOf 2 ∉ [Sample.idOf 1] := by decide
      have key : Sample.idOf 2 ∈ [Sample.idOf 1, Sample.idOf 2, Sample.idOf 3] := by decide
      simp [Solution.closure, transitiveReferences, keys, first, second, preorder, new, key]
    rw [roots, if_pos (List.cons_ne_nil _ _), closure] at part
    have kept : (s.restrict [Sample.idOf 1, Sample.idOf 2]).projects.keys = [Sample.idOf 1, Sample.idOf 2] := by
      rw [keys_restrict, keys]
      decide
    refine ⟨s, _, rfl, keys, part, kept, fun id mem => ?_⟩
    rw [kept] at mem
    rw [project?_restrict, if_pos (List.contains_iff_mem.2 mem)]

end Solution

end SolutionGraph
