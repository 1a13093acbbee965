import Mathlib.Data.List.Perm.Basic
import SolutionGraph.Proofs.Project.References
import SolutionGraph.Proofs.Solution.Findings

/-!
# References between projects

A project of a solution (`Member`) declares what it references in three ways (`Member.Declares`): by the ids of its items,
by the paths of items without an id, and by the ids in the section on dependencies. What comes of a reference is told by the members
of the solution alone (`target?`).

* **reading**: the projects that are read are the members, in their order (`foldl_readEntryProject`);
* **linking**: a member keeps the targets of its references, each once (`mem_linkedReferences`), and a reference without a
  target is dangling (`mem_dangling`);
* **filtering**: what is reached from the roots is closed under references (`Closed.retainReached`);
* **`parse_accountsFor`** puts this together: no reference leads out of a solution, none appears from nowhere, and each one
  that leads nowhere has its warning.
-/

namespace SolutionGraph

/-- The project and the reference that a warning is about. -/
def Warning.reference? : Warning → Option (Text × Text)
  | .unresolvedReference project reference => some (project, reference)
  | _ => none

namespace Solution

open Project (Descriptor Reference)

/-! ## Members and what they declare -/

/-- A project of a solution: its entry in the listing, and its descriptor. -/
structure Member where
  entry : Entry
  descriptor : Descriptor

namespace Member

/-- The id of the project. -/
def id (m : Member) : ProjectId := m.entry.id

/-- The name of the project. -/
def name (m : Member) : Text := (Project.ofDescriptor m.descriptor m.id m.entry.name).project.name

/-- A project declares a reference: its descriptor does, or the section on dependencies lists the id. -/
def Declares (m : Member) (r : Reference) : Prop :=
  m.descriptor.Declares r ∨ ∃ id ∈ m.entry.dependencies, r = .byId id

/-- The project before its references are resolved. -/
def project (m : Member) : Project :=
  withDependencies (Project.ofDescriptor m.descriptor m.id m.entry.name).project m.entry.dependencies

/-- The paths that the project references. -/
def paths (m : Member) : List Path := (Project.ofDescriptor m.descriptor m.id m.entry.name).unresolvedReferencePaths

theorem declares_byId {m : Member} {id : ProjectId} :
    m.Declares (.byId id) ↔ id ∈ m.descriptor.declaredIds ∨ id ∈ m.entry.dependencies := by
  simp [Declares, Descriptor.mem_declaredIds]

theorem declares_byPath {m : Member} {path : Path} : m.Declares (.byPath path) ↔ path ∈ m.descriptor.declaredPaths := by
  simp [Declares, Descriptor.mem_declaredPaths]

theorem mem_paths {m : Member} {p : Path} : p ∈ m.paths ↔ m.Declares (.byPath p) := by
  rw [paths, Project.ofDescriptor_referencePaths, Project.union, mem_foldl_insertNew, declares_byPath]
  simp

theorem nodup_paths (m : Member) : m.paths.Nodup := by
  rw [paths, Project.ofDescriptor_referencePaths]
  exact nodup_foldl_insertNew List.nodup_nil

theorem mem_project_references {m : Member} {id : ProjectId} : id ∈ m.project.references ↔ m.Declares (.byId id) := by
  have declared := Project.ofDescriptor_references m.descriptor m.id m.entry.name
  rw [declares_byId]
  unfold project withDependencies
  simp only [declared, Project.union, mem_foldl_insertNew, List.not_mem_nil, false_or]

theorem nodup_project_references (m : Member) : m.project.references.Nodup := by
  have declared := Project.ofDescriptor_references m.descriptor m.id m.entry.name
  unfold project withDependencies
  simp only [declared]
  exact nodup_foldl_insertNew (nodup_foldl_insertNew List.nodup_nil)

end Member

/-- The project that a reference leads to. A path leads to the last project whose descriptor is there. -/
def target? (policy : CasePolicy) (ms : List Member) : Reference → Option ProjectId
  | .byId id => if id ∈ ms.map Member.id then some id else none
  | .byPath path => (ms.reverse.find? fun m => m.descriptor.path.key policy == path.key policy).map Member.id

/-- The project of an entry, if it has a descriptor that can be read. -/
def memberOf? (tree : FileTree) (options : Project.Options) (dir : Path) (e : Entry) : Option Member :=
  if e.isFolder then none
  else if isDescriptor (Path.absolutize dir e.path) then
    (Descriptor.read? tree options (Path.absolutize dir e.path)).map fun d => ⟨e, d⟩
  else none

/-- A solution accounts for the references of its projects. -/
structure AccountsFor (s : Solution) (policy : CasePolicy) (ms : List Member) : Prop where
  /-- Its projects are the members. -/
  keys : s.projects.keys = ms.map Member.id
  /-- A project references the targets of what it declares, and nothing else. -/
  references : ∀ m ∈ ms, ∃ p, s.project? m.id = some p ∧ p.name = m.name ∧
    ∀ id, id ∈ p.references ↔ ∃ r, m.Declares r ∧ target? policy ms r = some id
  /-- The warnings of this kind are one for each project and each reference without a target that it declares. -/
  warnings : ∃ dangling : Member → List Reference,
    (∀ m ∈ ms, (dangling m).Nodup ∧ ∀ r, r ∈ dangling m ↔ m.Declares r ∧ target? policy ms r = none) ∧
      (s.warnings.filterMap Warning.reference?).Perm (ms.flatMap fun m => (dangling m).map fun r => (m.name, r.text))

/-! ## Reading the entries -/

section Reading

variable {tree : FileTree} {options : Project.Options} {dir : Path}

/-- One entry adds its project, if it has one, and no finding about a reference. -/
theorem readEntryProject_eq (tree : FileTree) (options : Project.Options) (dir : Path) (read : Linked)
    (findings : List Finding) (e : Entry) :
    ∃ more, readEntryProject tree options dir (read, findings) e =
        (((memberOf? tree options dir e).elim read fun m => read.insert m.id (m.project, m.paths)), findings ++ more) ∧
      (more.map Finding.warning).filterMap Warning.reference? = [] := by
  unfold readEntryProject memberOf?
  simp only
  split
  · exact ⟨[], by simp, rfl⟩
  · split
    · have parsed := Project.toOption_parse tree options (Path.absolutize dir e.path) e.id e.name
      split
      · rename_i result ok
        rw [ok] at parsed
        obtain ⟨d, found, rfl⟩ := Option.map_eq_some_iff.1 parsed.symm
        refine ⟨_, by rw [found]; rfl, ?_⟩
        rw [List.map_map, List.filterMap_map, List.filterMap_eq_nil_iff]
        intro w hw
        have condition := Project.isCondition_ofDescriptor d e.id e.name w hw
        cases w with
        | condition => rfl
        | _ => cases condition
      · rename_i cause error
        rw [error] at parsed
        have missing := Option.map_eq_none_iff.1 parsed.symm
        exact ⟨_, by rw [missing]; rfl, rfl⟩
    · exact ⟨_, rfl, rfl⟩

theorem memberOf?_entry {e : Entry} {m : Member} (h : memberOf? tree options dir e = some m) : m.entry = e := by
  unfold memberOf? at h
  split at h
  · cases h
  · split at h
    · obtain ⟨d, _, rfl⟩ := Option.map_eq_some_iff.1 h
      rfl
    · cases h

/-- **The projects that are read** are the members, in the order of their entries. -/
theorem foldl_readEntryProject (tree : FileTree) (options : Project.Options) (dir : Path) {entries : List Entry}
    {read : Linked} (findings : List Finding) (nodup : (entries.map Entry.id).Nodup)
    (new : ∀ e ∈ entries, e.id ∉ read.keys) :
    ∃ more, entries.foldl (readEntryProject tree options dir) (read, findings) =
        (⟨read.entries ++ (entries.filterMap (memberOf? tree options dir)).map fun m => (m.id, m.project, m.paths)⟩,
          findings ++ more) ∧
      (more.map Finding.warning).filterMap Warning.reference? = [] := by
  induction entries generalizing read findings with
  | nil => exact ⟨[], by simp, rfl⟩
  | cons e rest ih =>
    rw [List.map_cons, List.nodup_cons] at nodup
    rw [List.forall_mem_cons] at new
    obtain ⟨more, step, quiet⟩ := readEntryProject_eq tree options dir read findings e
    rw [List.foldl_cons, step]
    cases member : memberOf? tree options dir e with
    | none =>
      obtain ⟨later, run, quiet'⟩ := ih (findings ++ more) nodup.2 new.2
      refine ⟨more ++ later, ?_, by rw [List.map_append, List.filterMap_append, quiet, quiet']; rfl⟩
      rw [Option.elim_none, run, List.filterMap_cons_none member, List.append_assoc]
    | some m =>
      have key : m.id = e.id := congrArg Entry.id (memberOf?_entry member)
      have entries := OrderedMap.entries_insert (v := (m.project, m.paths)) (key ▸ new.1 : m.id ∉ read.keys)
      -- ids are not repeated, so a later entry is still new once this one is read
      have new' : ∀ f ∈ rest, f.id ∉ (read.insert m.id (m.project, m.paths)).keys := by
        intro f hf mem
        rw [OrderedMap.keys, entries, List.map_append, List.mem_append, List.map_singleton, List.mem_singleton] at mem
        rcases mem with old | e'
        · exact new.2 f hf old
        · exact nodup.1 (List.mem_map.2 ⟨f, hf, e'.trans key⟩)
      obtain ⟨later, run, quiet'⟩ := ih (findings ++ more) nodup.2 new'
      refine ⟨more ++ later, ?_, by rw [List.map_append, List.filterMap_append, quiet, quiet']; rfl⟩
      rw [Option.elim_some, run, List.filterMap_cons_some member, entries, List.append_assoc, List.append_assoc]
      rfl

/-- Entries that pass have different ids. -/
theorem nodup_of_duplicate?_eq_none {earlier entries : List Entry} (h : duplicate? earlier entries = none) :
    (entries.map Entry.id).Nodup ∧ ∀ e ∈ entries, ∀ before ∈ earlier, before.id ≠ e.id := by
  induction entries generalizing earlier with
  | nil => exact ⟨List.nodup_nil, nofun⟩
  | cons e rest ih =>
    rw [duplicate?] at h
    split at h
    · cases h
    · rename_i fresh
      obtain ⟨nodup, apart⟩ := ih h
      have fresh : ∀ before ∈ earlier, before.id ≠ e.id := by simpa using fresh
      refine ⟨?_, List.forall_mem_cons.2 ⟨fresh, fun f hf before hb => apart f hf before (List.mem_cons_of_mem _ hb)⟩⟩
      rw [List.map_cons, List.nodup_cons]
      refine ⟨fun mem => ?_, nodup⟩
      obtain ⟨f, hf, same⟩ := List.mem_map.1 mem
      exact apart f hf e List.mem_cons_self same.symm

end Reading

/-! ## Linking -/

section Linking

variable {policy : CasePolicy} {ms : List Member}

/-- A path is resolved among projects as among the members that they belong to. -/
theorem projectAt?_eq (policy : CasePolicy) (ms : List Member) (path : Path) :
    projectAt? policy (ms.map Member.project) path = target? policy ms (.byPath path) := by
  unfold projectAt? target?
  rw [← List.map_reverse, List.find?_map, Option.map_map]
  rfl

theorem mem_ids_of_target? {r : Reference} {id : ProjectId} (h : target? policy ms r = some id) :
    id ∈ ms.map Member.id := by
  cases r with
  | byId other =>
    rw [target?] at h
    split at h
    · cases h
      assumption
    · cases h
  | byPath path =>
    obtain ⟨m, found, rfl⟩ := Option.map_eq_some_iff.1 h
    exact List.mem_map_of_mem (List.mem_reverse.1 (List.mem_of_find?_eq_some found))

/-- Paths add their projects to the references, and those without a project are told. -/
theorem resolvePaths_eq (policy : CasePolicy) (all : List Project) (p : Project) (paths : List Path) :
    resolvePaths policy all p paths =
      ({ p with references := (paths.filterMap (projectAt? policy all)).foldl insertNew p.references },
        (paths.filter fun path => (projectAt? policy all path).isNone).map fun path => ⟨p.name, path.text⟩) := by
  have general : ∀ (p : Project) (dangling : List DanglingReference),
      paths.foldl (resolvePath policy all) (p, dangling) =
        ({ p with references := (paths.filterMap (projectAt? policy all)).foldl insertNew p.references },
          dangling ++ (paths.filter fun path => (projectAt? policy all path).isNone).map
            fun path => ⟨p.name, path.text⟩) := by
    induction paths with
    | nil => simp
    | cons path rest ih =>
      intro p dangling
      rw [List.foldl_cons, resolvePath]
      cases found : projectAt? policy all path with
      | some id => simp [ih, found]
      | none => simp [ih, found]
  exact general p []

/-- The references of a member, with those by path resolved, before unknown ones are dropped. -/
def resolvedReferences (policy : CasePolicy) (ms : List Member) (m : Member) : List ProjectId :=
  (m.paths.filterMap fun path => target? policy ms (.byPath path)).foldl insertNew m.project.references

theorem mem_resolvedReferences {m : Member} {id : ProjectId} : id ∈ resolvedReferences policy ms m ↔
    m.Declares (.byId id) ∨ ∃ path, m.Declares (.byPath path) ∧ target? policy ms (.byPath path) = some id := by
  rw [resolvedReferences, mem_foldl_insertNew, Member.mem_project_references, List.mem_filterMap]
  simp only [Member.mem_paths]

theorem nodup_resolvedReferences (m : Member) : (resolvedReferences policy ms m).Nodup :=
  nodup_foldl_insertNew m.nodup_project_references

/-- The references of a member in the end. -/
def linkedReferences (policy : CasePolicy) (ms : List Member) (m : Member) : List ProjectId :=
  (resolvedReferences policy ms m).filter fun id => (ms.map Member.id).contains id

/-- The references of a member that lead nowhere: first the paths, then the ids. -/
def danglingPaths (policy : CasePolicy) (ms : List Member) (m : Member) : List Reference :=
  (m.paths.filter fun path => (target? policy ms (.byPath path)).isNone).map .byPath

def danglingIds (policy : CasePolicy) (ms : List Member) (m : Member) : List Reference :=
  ((resolvedReferences policy ms m).filter fun id => !(ms.map Member.id).contains id).map .byId

/-- **A member keeps the targets of what it declares.** -/
theorem mem_linkedReferences {m : Member} {id : ProjectId} : id ∈ linkedReferences policy ms m ↔
    ∃ r, m.Declares r ∧ target? policy ms r = some id := by
  rw [linkedReferences, List.mem_filter, mem_resolvedReferences, List.contains_iff_mem]
  constructor
  · rintro ⟨declared | ⟨path, declared, found⟩, known⟩
    · exact ⟨.byId id, declared, if_pos known⟩
    · exact ⟨.byPath path, declared, found⟩
  · rintro ⟨r, declared, found⟩
    refine ⟨?_, mem_ids_of_target? found⟩
    cases r with
    | byId other =>
      rw [target?] at found
      split at found
      · cases found
        exact .inl declared
      · cases found
    | byPath path => exact .inr ⟨path, declared, found⟩

theorem mem_danglingPaths {m : Member} {r : Reference} : r ∈ danglingPaths policy ms m ↔
    ∃ path, r = .byPath path ∧ m.Declares r ∧ target? policy ms r = none := by
  simp only [danglingPaths, List.mem_map, List.mem_filter, Member.mem_paths, Option.isNone_iff_eq_none]
  constructor
  · rintro ⟨path, told, rfl⟩
    exact ⟨path, rfl, told⟩
  · rintro ⟨path, rfl, told⟩
    exact ⟨path, told, rfl⟩

theorem mem_danglingIds {m : Member} {r : Reference} : r ∈ danglingIds policy ms m ↔
    ∃ id, r = .byId id ∧ m.Declares r ∧ target? policy ms r = none := by
  have target : ∀ id, target? policy ms (.byId id) = none ↔ id ∉ ms.map Member.id := by
    intro id
    rw [target?]
    split <;> simp_all
  rw [danglingIds, List.mem_map]
  constructor
  · rintro ⟨id, mem, rfl⟩
    rw [List.mem_filter, mem_resolvedReferences, Bool.not_eq_true', List.contains_eq_mem, decide_eq_false_iff_not] at mem
    refine ⟨id, rfl, mem.1.resolve_right ?_, (target id).2 mem.2⟩
    -- what a path leads to is known
    rintro ⟨path, _, found⟩
    exact mem.2 (mem_ids_of_target? found)
  · rintro ⟨id, rfl, declared, missing⟩
    refine ⟨id, ?_, rfl⟩
    rw [List.mem_filter, mem_resolvedReferences, Bool.not_eq_true', List.contains_eq_mem, decide_eq_false_iff_not]
    exact ⟨.inl declared, (target id).1 missing⟩

/-- **What leads nowhere is dangling**, and nothing else. -/
theorem mem_dangling {m : Member} {r : Reference} : r ∈ danglingPaths policy ms m ++ danglingIds policy ms m ↔
    m.Declares r ∧ target? policy ms r = none := by
  rw [List.mem_append, mem_danglingPaths, mem_danglingIds]
  constructor
  · rintro (⟨_, _, told⟩ | ⟨_, _, told⟩) <;> exact told
  · intro told
    cases r with
    | byPath path => exact .inl ⟨path, rfl, told⟩
    | byId id => exact .inr ⟨id, rfl, told⟩

theorem nodup_dangling (m : Member) : (danglingPaths policy ms m ++ danglingIds policy ms m).Nodup := by
  rw [List.nodup_append]
  refine ⟨(m.nodup_paths.filter _).map fun _ _ e => Reference.byPath.inj e,
    ((nodup_resolvedReferences m).filter _).map fun _ _ e => Reference.byId.inj e, ?_⟩
  rintro _ here _ there rfl
  obtain ⟨path, _, rfl⟩ := List.mem_map.1 here
  obtain ⟨id, _, e⟩ := List.mem_map.1 there
  cases e

/-- The projects with their references in the end. -/
def linkedProjects (policy : CasePolicy) (ms : List Member) : OrderedMap ProjectId Project :=
  ⟨ms.map fun m => (m.id, { m.project with references := linkedReferences policy ms m })⟩

theorem keys_linkedProjects (policy : CasePolicy) (ms : List Member) :
    (linkedProjects policy ms).keys = ms.map Member.id := by
  rw [OrderedMap.keys, linkedProjects, List.map_map]
  rfl

/-- **Linking members** resolves their references, and tells those that lead nowhere. -/
theorem link_eq (policy : CasePolicy) (ms : List Member) :
    link policy ⟨ms.map fun m => (m.id, m.project, m.paths)⟩ = (linkedProjects policy ms,
      (ms.flatMap fun m => (danglingPaths policy ms m).map fun r => ⟨m.name, r.text⟩) ++
        ms.flatMap fun m => (danglingIds policy ms m).map fun r => ⟨m.name, r.text⟩) := by
  have all : (OrderedMap.values ⟨ms.map fun m => (m.id, m.project, m.paths)⟩).map Prod.fst = ms.map Member.project := by
    rw [OrderedMap.values, List.map_map, List.map_map]
    rfl
  have known : OrderedMap.keys ⟨ms.map fun m => (m.id, m.project, m.paths)⟩ = ms.map Member.id := by
    rw [OrderedMap.keys, List.map_map]
    rfl
  unfold link
  simp only [all, known, List.map_map, List.flatMap_map, resolvePaths_eq, projectAt?_eq, Function.comp_def, dropUnknown,
    danglingPaths, danglingIds]
  rfl

end Linking

/-! ## Filtering -/

/-- The references of every project are different projects of the map. -/
def Closed (projects : OrderedMap ProjectId Project) : Prop :=
  ∀ e ∈ projects.entries, e.2.references.Nodup ∧ ∀ id ∈ e.2.references, id ∈ projects.keys

section Filtering

variable {projects : OrderedMap ProjectId Project}

theorem mem_reachedFrom_of_references (nodup : projects.keys.Nodup) {roots : List ProjectId} {id other : ProjectId}
    {p : Project} (mem : (id, p) ∈ projects.entries) (reached : id ∈ reachedFrom projects roots)
    (edge : other ∈ p.references) : other ∈ reachedFrom projects roots := by
  have key : id ∈ projects.keys := List.mem_map_of_mem mem
  have leads : other ∈ (referencesIn projects id).reverse := by
    rw [List.mem_reverse, referencesIn, OrderedMap.get?_eq_some nodup mem]
    exact edge
  exact (preorder_closed reached key leads).resolve_left List.not_mem_nil

/-- **What is reached from roots is closed under references.** -/
theorem Closed.retainReached (h : Closed projects) (nodup : projects.keys.Nodup) (roots : List ProjectId) :
    Closed (retainReached projects roots) := by
  rintro ⟨id, p⟩ mem
  obtain ⟨mem, reached⟩ := List.mem_filter.1 mem
  obtain ⟨unique, known⟩ := h (id, p) mem
  refine ⟨unique, fun other edge => ?_⟩
  have reached' := mem_reachedFrom_of_references nodup mem (List.contains_iff_mem.1 reached) edge
  obtain ⟨⟨key, q⟩, mem', rfl⟩ := List.mem_map.1 (known other edge)
  exact List.mem_map.2 ⟨(key, q), List.mem_filter.2 ⟨mem', List.contains_iff_mem.2 reached'⟩, rfl⟩

theorem keys_inheritPublicDirs (projects : OrderedMap ProjectId Project) :
    (inheritPublicDirs projects).keys = projects.keys := by
  rw [inheritPublicDirs, OrderedMap.mapValues, OrderedMap.keys, List.map_map]
  rfl

theorem Closed.inheritPublicDirs (h : Closed projects) : Closed (inheritPublicDirs projects) := by
  intro e mem
  obtain ⟨e', mem', rfl⟩ := List.mem_map.1 mem
  rw [keys_inheritPublicDirs]
  exact h e' mem'

theorem closed_linkedProjects (policy : CasePolicy) (ms : List Member) : Closed (linkedProjects policy ms) := by
  intro e mem
  obtain ⟨m, _, rfl⟩ := List.mem_map.1 mem
  refine ⟨(nodup_resolvedReferences m).filter _, fun id edge => ?_⟩
  obtain ⟨r, _, found⟩ := mem_linkedReferences.1 edge
  rw [keys_linkedProjects]
  exact mem_ids_of_target? found

end Filtering

/-! ## Reading a solution -/

/-- The projects that a listing has, with descriptors that can be read. -/
def members (tree : FileTree) (options : Options) (path : Path) (l : Listing) : List Member :=
  l.entries.filterMap
    (memberOf? tree ⟨some (path.parent?.getD ⟨[]⟩), options.systemIncludeDirs⟩ (path.parent?.getD ⟨[]⟩))

theorem reference?_checkHeader (path : Path) (l : Listing) (dialect : Dialect) :
    ((checkHeader path l dialect).map Finding.warning).filterMap Warning.reference? = [] := by
  unfold checkHeader
  simp only
  split
  · split
    · split <;> rfl
    · rfl
  · split
    · split
      · split <;> rfl
      · rfl
    · split
      · split <;> rfl
      · rfl

theorem reference?_problems (path : Path) (problems : List Problem) :
    ((problems.map (Finding.problem path)).map Finding.warning).filterMap Warning.reference? = [] := by
  rw [List.map_map, List.filterMap_map, List.filterMap_eq_nil_iff]
  exact fun _ _ => rfl

theorem reference?_rootSet (l : Listing) (given : List ProjectId) (projects : OrderedMap ProjectId Project) :
    ((rootSet l given projects).2.map Finding.warning).filterMap Warning.reference? = [] := by
  unfold rootSet
  split
  · rfl
  · simp only
    rw [List.map_map, List.filterMap_map, List.filterMap_eq_nil_iff]
    exact fun _ _ => rfl

theorem reference?_dangling (found : List DanglingReference) :
    ((found.map Finding.dangling).map Finding.warning).filterMap Warning.reference? =
      found.map fun d => (d.project, d.reference) := by
  rw [List.map_map, List.filterMap_map, ← List.filterMap_eq_map]
  rfl

section Parsing

variable {tree : FileTree} {options : Options} {s : Solution}

theorem sublist_members (tree : FileTree) (options : Project.Options) (dir : Path) (entries : List Entry) :
    ((entries.filterMap (memberOf? tree options dir)).map Member.id).Sublist (entries.map Entry.id) := by
  induction entries with
  | nil => exact .slnil
  | cons e rest ih =>
    cases member : memberOf? tree options dir e with
    | none =>
      rw [List.filterMap_cons_none member]
      exact ih.cons _
    | some m =>
      have key : m.id = e.id := congrArg Entry.id (memberOf?_entry member)
      rw [List.filterMap_cons_some member, List.map_cons, List.map_cons, key]
      exact ih.cons_cons _

/-- Reading the entries of a listing gives its members. -/
theorem exists_read_members (tree : FileTree) (options : Options) (path : Path) {l : Listing}
    (unique : duplicate? [] l.entries = none) :
    ((members tree options path l).map Member.id).Nodup ∧
      ∃ more, l.entries.foldl (readEntryProject tree ⟨some (path.parent?.getD ⟨[]⟩), options.systemIncludeDirs⟩
          (path.parent?.getD ⟨[]⟩)) (.empty, []) =
          (⟨(members tree options path l).map fun m => (m.id, m.project, m.paths)⟩, more) ∧
        (more.map Finding.warning).filterMap Warning.reference? = [] := by
  have nodup := (nodup_of_duplicate?_eq_none unique).1
  have new : ∀ e ∈ l.entries, e.id ∉ (OrderedMap.empty : Linked).keys := fun _ _ => List.not_mem_nil
  exact ⟨nodup.sublist (sublist_members _ _ _ _), foldl_readEntryProject tree
    ⟨some (path.parent?.getD ⟨[]⟩), options.systemIncludeDirs⟩ (path.parent?.getD ⟨[]⟩) [] nodup new⟩

/-- What a solution is made of. -/
theorem build_eq_ok {path : Path} {dialect : Dialect} {l : Listing} (h : (build tree options path dialect l).2 = .ok s) :
    ((members tree options path l).map Member.id).Nodup ∧
      (s.projects = inheritPublicDirs (linkedProjects options.policy (members tree options path l)) ∨
        options.referencedOnly = true ∧ ∃ roots, s.projects =
          inheritPublicDirs (retainReached (linkedProjects options.policy (members tree options path l)) roots)) ∧
      s.warnings.filterMap Warning.reference? =
        (link options.policy ⟨(members tree options path l).map fun m => (m.id, m.project, m.paths)⟩).2.map
          fun d => (d.project, d.reference) := by
  cases unique : duplicate? [] l.entries with
  | some error => simp [build, unique] at h
  | none =>
    obtain ⟨nodup, more, read, quiet⟩ := exists_read_members tree options path unique
    simp only [build, unique, read, Except.ok.injEq] at h
    subst h
    refine ⟨nodup, ?_, ?_⟩
    · rw [link_eq]
      by_cases only : options.referencedOnly
      · refine .inr ⟨only, (rootSet l options.roots (linkedProjects options.policy (members tree options path l))).1, ?_⟩
        simp only [only, if_true]
      · exact .inl (by simp only [only, Bool.false_eq_true, if_false])
    · -- of all findings, only those of linking are about references
      simp only [List.map_append, List.filterMap_append, reference?_checkHeader, reference?_problems, quiet,
        reference?_dangling, List.nil_append]
      split
      · rw [reference?_rootSet, List.append_nil]
      · exact List.append_nil _

/-- A solution is built from the text of its file. -/
theorem parse_eq_ok (h : parse tree options = .ok s) :
    ∃ dialect text, tree.readText (solutionFile tree options) = .ok text ∧
      (build tree options (solutionFile tree options) dialect (Listing.read text)).2 = .ok s := by
  rw [parse_eq] at h
  cases file : opened tree options with
  | error e =>
    rw [file] at h
    cases h
  | ok found =>
    obtain ⟨dialect, text⟩ := found
    rw [file] at h
    exact ⟨dialect, text, readText_of_opened file, (settle_eq_ok.1 h).2⟩

theorem accountsFor_of_linkedProjects {policy : CasePolicy} {ms : List Member} (nodup : (ms.map Member.id).Nodup)
    (projects : s.projects = inheritPublicDirs (linkedProjects policy ms))
    (warnings : s.warnings.filterMap Warning.reference? =
      (link policy ⟨ms.map fun m => (m.id, m.project, m.paths)⟩).2.map fun d => (d.project, d.reference)) :
    s.AccountsFor policy ms := by
  have keys : s.projects.keys = ms.map Member.id := by
    rw [projects, keys_inheritPublicDirs, keys_linkedProjects]
  refine ⟨keys, fun m mem => ?_, fun m => danglingPaths policy ms m ++ danglingIds policy ms m,
    fun m _ => ⟨nodup_dangling m, fun _ => mem_dangling⟩, ?_⟩
  · let p : Project := { m.project with references := linkedReferences policy ms m }
    refine ⟨inheritInto (linkedProjects policy ms) p, ?_, rfl, fun _ => mem_linkedReferences⟩
    apply OrderedMap.get?_eq_some
    · rw [keys]
      exact nodup
    · rw [projects]
      exact List.mem_map.2 ⟨(m.id, p), List.mem_map.2 ⟨m, mem, rfl⟩, rfl⟩
  · -- linking tells the paths of all members before their ids
    rw [warnings, link_eq, List.map_append, List.map_flatMap, List.map_flatMap]
    simp only [List.map_map, List.map_append]
    exact List.flatMap_append_perm ms _ _

/-- **References stay inside a solution, and none is lost.** Each project references different projects of the solution, also
if only those are kept that are reached. If all are kept, a project references what its declared references lead to, and
nothing else, and each declared reference that leads nowhere has one warning. -/
theorem parse_accountsFor (h : parse tree options = .ok s) :
    Closed s.projects ∧ (options.referencedOnly = false →
      ∃ text, tree.readText (solutionFile tree options) = .ok text ∧
        s.AccountsFor options.policy (members tree options (solutionFile tree options) (Listing.read text))) := by
  obtain ⟨dialect, text, read, built⟩ := parse_eq_ok h
  obtain ⟨nodup, projects, warnings⟩ := build_eq_ok built
  constructor
  · rcases projects with kept | ⟨_, roots, kept⟩
    · rw [kept]
      exact (closed_linkedProjects _ _).inheritPublicDirs
    · rw [kept]
      refine ((closed_linkedProjects _ _).retainReached ?_ roots).inheritPublicDirs
      rw [keys_linkedProjects]
      exact nodup
  · intro all
    rcases projects with kept | ⟨only, _⟩
    · exact ⟨text, read, accountsFor_of_linkedProjects nodup kept warnings⟩
    · rw [all] at only
      cases only

end Parsing

namespace Sample

/-- One project, which depends on itself and on a project that is not there. -/
def lines : List Text :=
  ["Project(\"\") = \"A\", \"A.vcxproj\", \"" ++ List.replicate 32 '1' ++ "\"", "ProjectSection(ProjectDependencies)",
    List.replicate 32 '1' ++ " =", List.replicate 32 '2' ++ " =", "EndProjectSection", "EndProject"]

def text : Text := lines.flatMap fun line => line ++ ['\n']

/-- The project references another one that is not there, by its path. -/
def descriptor : Text := "<Project><ItemGroup>" ++ "<ProjectReference Include=\"C\"/>" ++ "</ItemGroup></Project>"

def tree : FileTree :=
  ⟨.dir [("w", .dir [("s.sln", .file (Text.encode text)), ("A.vcxproj", .file (Text.encode descriptor))])], ["w"]⟩

def options : Options := ⟨"/w/s.sln", "", false, false, "12.0", [], .sensitive, []⟩

def here : ProjectId := ⟨List.replicate 32 ⟨1, by decide⟩, rfl⟩

def absent : ProjectId := ⟨List.replicate 32 ⟨2, by decide⟩, rfl⟩

def missing : Path := "/w/C"

theorem parse_tree : (parse tree options).toBool ∧ tree.readText (solutionFile tree options) = .ok text ∧
    (members tree options (solutionFile tree options) (Listing.read text)).map
      (fun m => ((m.id, m.name, m.entry.dependencies),
        (m.descriptor.path.key options.policy == missing.key options.policy, m.descriptor.declaredIds,
          m.descriptor.declaredPaths))) =
      [((here, ("A" : Text), [here, absent]), (false, [], [missing]))] := by
  decide +kernel

/-- The member of the sample, and where its references lead. -/
theorem exists_member : ∃ m, members tree options (solutionFile tree options) (Listing.read text) = [m] ∧
    m.id = here ∧ m.name = "A" ∧
    (∀ r id, m.Declares r ∧ target? options.policy [m] r = some id ↔ r = .byId here ∧ id = here) ∧
    ∀ r, m.Declares r ∧ target? options.policy [m] r = none ↔ r ∈ [.byPath missing, .byId absent] := by
  obtain ⟨m, single, declared⟩ := List.map_eq_singleton_iff.1 parse_tree.2.2
  simp only [Prod.mk.injEq] at declared
  obtain ⟨⟨key, name, dependencies⟩, elsewhere, ids, paths⟩ := declared
  have declares : ∀ r, m.Declares r ↔ r = .byId here ∨ r = .byId absent ∨ r = .byPath missing := by
    rintro (_ | _) <;> simp [Member.declares_byId, Member.declares_byPath, dependencies, ids, paths]
  have unknown : absent ≠ here := by decide
  have kept : target? options.policy [m] (.byId here) = some here := by simp [target?, key]
  have noId : target? options.policy [m] (.byId absent) = none := by simp [target?, key, unknown]
  have noPath : target? options.policy [m] (.byPath missing) = none := by
    simp only [target?, List.reverse_singleton, List.find?_singleton, elsewhere]
    rfl
  refine ⟨m, single, key, name, fun r id => ?_, fun r => ?_⟩
  · rw [declares]
    constructor
    · rintro ⟨rfl | rfl | rfl, found⟩
      · exact ⟨rfl, Option.some.inj (found.symm.trans kept)⟩
      · cases found.symm.trans noId
      · cases found.symm.trans noPath
    · rintro ⟨rfl, rfl⟩
      exact ⟨.inl rfl, kept⟩
  · rw [declares]
    constructor
    · rintro ⟨rfl | rfl | rfl, found⟩
      · cases found.symm.trans kept
      · exact .tail _ (.head _)
      · exact .head _
    · intro mem
      rcases mem with _ | ⟨_, _ | ⟨_, mem⟩⟩
      · exact ⟨.inr (.inr rfl), noPath⟩
      · exact ⟨.inr (.inl rfl), noId⟩
      · cases mem

end Sample

/-- The sample keeps the reference of its project to itself, and the two others have a warning each. -/
theorem accountsFor_sample : ∃ s, parse Sample.tree Sample.options = .ok s ∧ Closed s.projects ∧
    (∃ p, s.project? Sample.here = some p ∧ ∀ id, id ∈ p.references ↔ id = Sample.here) ∧
    (s.warnings.filterMap Warning.reference?).Perm
      [("A", Sample.missing.text), ("A", Sample.absent.text)] := by
  obtain ⟨m, single, key, name, kept, lost⟩ := Sample.exists_member
  obtain ⟨ok, read, _⟩ := Sample.parse_tree
  cases parsed : parse Sample.tree Sample.options with
  | error => rw [parsed] at ok; cases ok
  | ok s =>
    obtain ⟨closed, accounts⟩ := parse_accountsFor parsed
    obtain ⟨text, read', accounts⟩ := accounts rfl
    obtain rfl : Sample.text = text := Except.ok.inj (read.symm.trans read')
    rw [single] at accounts
    refine ⟨s, rfl, closed, ?_, ?_⟩
    · obtain ⟨p, found, _, references⟩ := accounts.references m List.mem_cons_self
      rw [key] at found
      refine ⟨p, found, fun id => (references id).trans ?_⟩
      simp only [kept, exists_eq_left]
    · obtain ⟨dangling, spec, told⟩ := accounts.warnings
      obtain ⟨nodup, spec⟩ := spec m List.mem_cons_self
      have two : (dangling m).Perm [.byPath Sample.missing, .byId Sample.absent] :=
        (List.perm_ext_iff_of_nodup nodup (by decide)).2 fun r => (spec r).trans (lost r)
      rw [List.flatMap_singleton, name] at told
      exact told.trans (two.map _)

end Solution

end SolutionGraph
