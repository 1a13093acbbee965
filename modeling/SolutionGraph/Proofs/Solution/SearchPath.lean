import SolutionGraph.Include.Search
import SolutionGraph.Proofs.Path.Join
import SolutionGraph.Proofs.Project.Rules
import SolutionGraph.Proofs.Solution.References

/-!
# Where the headers of a project are sought

The directories of a project's search come from its descriptor, from the descriptors of the projects that it references, and
from the toolchain (`documentedDirs`). They are put together in three stages, each of which drops what it has already, and in
the end each directory is there once, in normal form, where it first came (`parse_searchPath`).

* **rules**: when case matters, the rules keep the first occurrence of each normal form (`orderedDirectories_sensitive`);
* **searching**: a directory holds the same files as its normal form (`locate_normalize`), so nothing is lost
  (`findSome?_locate_eraseDups`);
* **inheritance**: a project inherits what its references offer, in order (`inheritedDirs_eq`).
-/

namespace SolutionGraph

/-! ## Rules -/

namespace Settings

theorem addDirectory_sensitive (dirs : List Path) (dir : Path) :
    addDirectory .sensitive dirs dir = insertNew dirs dir.normalize := by
  have known : (dirs.any fun d => d.key .sensitive == dir.normalize.key .sensitive) = dirs.contains dir.normalize := by
    rw [List.contains_eq_any_beq]
    refine congrArg (List.any dirs) (funext fun d => ?_)
    rw [Bool.eq_iff_iff, beq_iff_eq, beq_iff_eq]
    exact ⟨fun same => congrArg Path.mk same.symm, fun same => congrArg Path.text same.symm⟩
  rw [addDirectory, insertNew, known]

/-- When case matters, the directories of the search are the first occurrences of their normal forms. -/
theorem orderedDirectories_sensitive (s : Settings) :
    s.orderedDirectories .sensitive = (s.searchPath.map Path.normalize).eraseDups := by
  have step : addDirectory .sensitive = fun dirs dir => insertNew dirs dir.normalize := by
    funext dirs dir
    exact addDirectory_sensitive dirs dir
  rw [orderedDirectories, step, ← List.foldl_map, foldl_insertNew_nil]

end Settings

/-! ## Searching -/

namespace Include.Search

variable (s : Search) (name : Text)

theorem locate_normalize (dir : Path) : s.locate name dir.normalize = s.locate name dir := by
  unfold locate FileTree.findFile
  rw [Path.absolutize_normalize]

/-- **Nothing is lost** if only the first occurrence of each normal form is searched. -/
theorem findSome?_locate_eraseDups (dirs : List Path) :
    (dirs.map Path.normalize).eraseDups.findSome? (s.locate name) = dirs.findSome? (s.locate name) := by
  have same : s.locate name ∘ Path.normalize = s.locate name := funext (s.locate_normalize name)
  rw [findSome?_eraseDups, List.findSome?_map, same]

end Include.Search

/-- Search rules stand for directories as they are written, in a configuration: they have the first occurrences of the normal
forms, and whatever is sought in them is found where it is found in the directories as written. -/
structure ResolvedRules.StandFor (r : ResolvedRules) (c : ConfigurationName) (written : List Path) : Prop where
  configuration : r.configuration = some c
  directories : r.rules.directories = (written.map Path.normalize).eraseDups
  located : ∀ (search : Include.Search) (name : Text),
    r.rules.directories.findSome? (search.locate name) = written.findSome? (search.locate name)

namespace Project

/-! ## Configurations -/

/-- The directories that a project offers to a configuration of another one: those of its own configuration of that name, or
else of its default one. -/
def Descriptor.offeredDirs (d : Descriptor) (name : ConfigurationName) : List Path :=
  match (d.evaluated.find? (· == name)).or (d.evaluated.find? (· == d.standIn)) with
  | some c => d.publicDirs c
  | none => []

section Follows

variable {p : Project} {d : Descriptor} {settings : ConfigurationName → Settings}

theorem Follows.searchRules (h : p.Follows d settings) {c : ConfigurationName} (mem : c ∈ d.evaluated) {requested : Text}
    (spells : c == .ofText requested) : (p.searchRules .sensitive requested).configuration = some c ∧
      (p.searchRules .sensitive requested).rules.directories = (settings c).orderedDirectories .sensitive := by
  rw [Project.searchRules, h.select mem spells]
  exact ⟨rfl, rfl⟩

end Follows

end Project

namespace Solution

open Project (Descriptor)

/-! ## Inheritance -/

/-- **The directories of a search**, as they are written: those of `AdditionalIncludeDirectories`; then, unless the standard
ones are left out, those that each of the references offers, those of `IncludePath`, and those of the toolchain. -/
def documentedDirs (ms : List Member) (toolchain : List Path) (references : List ProjectId) (d : Descriptor)
    (c : ConfigurationName) : List Path :=
  d.additionalDirs c ++
    if d.ignoresStandardPath c then []
    else
      (references.flatMap fun id => (ms.find? (·.id == id)).elim [] fun m => m.descriptor.offeredDirs c) ++
        d.propertyDirs c "IncludePath" ++ toolchain

theorem Member.follows (m : Member) (references : List ProjectId) :
    Project.Follows { m.project with references } m.descriptor m.descriptor.settingsIn :=
  ⟨Project.entries_configurations m.descriptor m.id m.entry.name, rfl⟩

/-- What a project offers is what its descriptor says, in normal form. -/
theorem offeredSettings?_of_follows {p : Project} {d : Descriptor} (h : p.Follows d d.settingsIn) (c : ConfigurationName) :
    (match offeredSettings? p c with
      | some s => s.publicIncludeDirs
      | none => []) = (d.offeredDirs c).map Path.normalize := by
  have settings : offeredSettings? p c =
      ((d.evaluated.find? (· == c)).or (d.evaluated.find? (· == d.standIn))).map d.settingsIn := by
    rw [offeredSettings?, h.standIn, Option.bind_some, h.get?, h.get?]
    cases d.evaluated.find? (· == c) <;> rfl
  rw [settings, Descriptor.offeredDirs]
  cases (d.evaluated.find? (· == c)).or (d.evaluated.find? (· == d.standIn)) with
  | none => rfl
  | some other => exact d.publicIncludeDirs_settingsIn other

section Inheritance

variable {policy : CasePolicy} {ms : List Member} {projects : OrderedMap ProjectId Project}

theorem find?_id (nodup : (ms.map Member.id).Nodup) {m : Member} (mem : m ∈ ms) :
    ms.find? (·.id == m.id) = some m := by
  have isSome : (ms.find? (·.id == m.id)).isSome := List.find?_isSome.2 ⟨m, mem, beq_self_eq_true m.id⟩
  obtain ⟨found, eq⟩ := Option.isSome_iff_exists.1 isSome
  have agrees := List.find?_some eq
  have same : found.id = m.id := eq_of_beq agrees
  rw [eq, List.inj_on_of_nodup_map nodup (List.mem_of_find?_eq_some eq) mem same]

/-- The references of a kept project lead to members, and these are kept as they are linked. -/
theorem exists_get?_of_mem_references (nodup : (ms.map Member.id).Nodup)
    (kept : projects.entries.Sublist (linkedProjects policy ms).entries) (closed : Closed projects)
    {e : ProjectId × Project} (mem : e ∈ projects.entries) {id : ProjectId} (edge : id ∈ e.2.references) :
    ∃ m, ms.find? (·.id == id) = some m ∧
      projects.get? id = some { m.project with references := linkedReferences policy ms m } := by
  obtain ⟨⟨key, target⟩, memTarget, rfl⟩ := List.mem_map.1 ((closed e mem).2 id edge)
  obtain ⟨m, memM, linked⟩ := List.mem_map.1 (kept.subset memTarget)
  rw [Prod.mk.injEq] at linked
  obtain ⟨rfl, rfl⟩ := linked
  have unique : projects.keys.Nodup := by
    have ids : projects.keys.Sublist (ms.map Member.id) := by
      rw [← keys_linkedProjects policy ms]
      exact kept.map Prod.fst
    exact nodup.sublist ids
  exact ⟨m, find?_id nodup memM, OrderedMap.get?_eq_some unique memTarget⟩

/-- **A project inherits** what its references offer, each directory once. -/
theorem inheritedDirs_eq (nodup : (ms.map Member.id).Nodup)
    (kept : projects.entries.Sublist (linkedProjects policy ms).entries) (closed : Closed projects)
    {e : ProjectId × Project} (mem : e ∈ projects.entries) (c : ConfigurationName) :
    inheritedDirs projects e.2 c = ((e.2.references.flatMap fun id =>
      (ms.find? (·.id == id)).elim [] fun m => m.descriptor.offeredDirs c).map Path.normalize).eraseDups := by
  have offered : ∀ ids : List ProjectId, (∀ id ∈ ids, id ∈ e.2.references) →
      ((ids.filterMap projects.get?).flatMap fun target =>
        match offeredSettings? target c with
        | some s => s.publicIncludeDirs
        | none => []) =
      (ids.flatMap fun id => (ms.find? (·.id == id)).elim [] fun m => m.descriptor.offeredDirs c).map Path.normalize := by
    intro ids edges
    induction ids with
    | nil => rfl
    | cons id ids ih =>
      rw [List.forall_mem_cons] at edges
      obtain ⟨m, found, got⟩ := exists_get?_of_mem_references nodup kept closed mem edges.1
      rw [List.filterMap_cons_some got, List.flatMap_cons, List.flatMap_cons, List.map_append, ih edges.2, found,
        Option.elim_some, offeredSettings?_of_follows (m.follows _)]
  rw [inheritedDirs, foldl_insertNew_nil]
  exact congrArg List.eraseDups (offered e.2.references fun _ edge => edge)

theorem follows_inheritInto (projects : OrderedMap ProjectId Project) {p : Project} {d : Descriptor}
    {settings : ConfigurationName → Settings} (h : p.Follows d settings) : (inheritInto projects p).Follows d fun c =>
      { settings c with inheritedIncludeDirs := inheritedDirs projects p c } := by
  refine ⟨?_, h.standIn⟩
  simp only [inheritInto, h.configurations, List.map_map]
  rfl

end Inheritance

/-! ## The search path of a project -/

/-- The three stages together keep the first occurrence of each directory. -/
theorem orderedDirectories_inherited {ms : List Member} {references : List ProjectId} {d : Descriptor}
    {c : ConfigurationName} {inherited : List Path}
    (offered : inherited = ((references.flatMap fun id =>
      (ms.find? (·.id == id)).elim [] fun m => m.descriptor.offeredDirs c).map Path.normalize).eraseDups) :
    Settings.orderedDirectories .sensitive { d.settingsIn c with inheritedIncludeDirs := inherited } =
      ((documentedDirs ms d.options.systemIncludeDirs references d c).map Path.normalize).eraseDups := by
  have twice (dirs : List Path) : (dirs.map Path.normalize).map Path.normalize = dirs.map Path.normalize := by
    rw [List.map_map]
    exact List.map_congr_left fun dir _ => dir.normalize_normalize
  have normal : inherited.map Path.normalize = inherited := by
    rw [← List.map_id inherited, List.map_map]
    refine List.map_congr_left fun dir mem => ?_
    rw [offered, List.mem_eraseDups] at mem
    obtain ⟨dir, _, rfl⟩ := List.mem_map.1 mem
    exact dir.normalize_normalize
  rw [Settings.orderedDirectories_sensitive, Settings.searchPath, documentedDirs]
  -- only the part that is inherited has lost repetitions, and it stands in the middle of the list
  simp only [Descriptor.includeDirs_settingsIn, Descriptor.systemIncludeDirs_settingsIn,
    Descriptor.appendSystemPaths_settingsIn]
  cases d.ignoresStandardPath c with
  | true => simp [twice]
  | false =>
    simp only [Bool.not_false, if_true, Bool.false_eq_true, if_false, List.map_append, twice, normal]
    rw [offered, eraseDups_append_eraseDups, List.append_assoc]

section Parsing

variable {tree : FileTree} {options : Options} {s : Solution}

theorem options_of_read? {options : Project.Options} {path : Path} {d : Descriptor}
    (h : Descriptor.read? tree options path = some d) : d.options = options := by
  unfold Descriptor.read? at h
  split at h
  · split at h
    · split at h
      · split at h
        · cases h
          rfl
        · cases h
      · cases h
    · cases h
  · cases h

/-- Every descriptor of a solution is read with the directories of the toolchain. -/
theorem systemIncludeDirs_of_mem_members {path : Path} {l : Listing} {m : Member} (mem : m ∈ members tree options path l) :
    m.descriptor.options.systemIncludeDirs = options.systemIncludeDirs := by
  obtain ⟨e, _, member⟩ := List.mem_filterMap.1 mem
  unfold memberOf? at member
  split at member
  · cases member
  · split at member
    · obtain ⟨d, read, rfl⟩ := Option.map_eq_some_iff.1 member
      rw [options_of_read? read]
    · cases member

/-- The projects of a solution are linked members with the directories that their references offer. -/
theorem exists_kept_projects {path : Path} {dialect : Dialect} {l : Listing}
    (h : (build tree options path dialect l).2 = .ok s) :
    ∃ projects : OrderedMap ProjectId Project, s.projects = inheritPublicDirs projects ∧ Closed projects ∧
      projects.entries.Sublist (linkedProjects options.policy (members tree options path l)).entries := by
  obtain ⟨nodup, projects, _⟩ := build_eq_ok h
  have closed := closed_linkedProjects options.policy (members tree options path l)
  obtain all | ⟨_, roots, reached⟩ := projects
  · exact ⟨_, all, closed, .refl _⟩
  · refine ⟨_, reached, closed.retainReached ?_ roots, List.filter_sublist⟩
    rw [keys_linkedProjects]
    exact nodup

/-- **The search path of a project is the documented one**, in every configuration of every project of a solution, whatever
request spells the configuration's name. -/
theorem parse_searchPath (h : parse tree options = .ok s) :
    ∃ text, tree.readText (solutionFile tree options) = .ok text ∧
      ∀ e ∈ s.projects.entries, ∃ m ∈ members tree options (solutionFile tree options) (Listing.read text),
        m.id = e.1 ∧ e.2.configurations.keys = m.descriptor.evaluated ∧
        ∀ c ∈ m.descriptor.evaluated, .ofText c.text = c ∧ ∀ requested, c == .ofText requested →
          (e.2.searchRules .sensitive requested).StandFor c
            (documentedDirs (members tree options (solutionFile tree options) (Listing.read text)) options.systemIncludeDirs
              e.2.references m.descriptor c) := by
  obtain ⟨dialect, text, read, built⟩ := parse_eq_ok h
  refine ⟨text, read, ?_⟩
  generalize members_eq : members tree options (solutionFile tree options) (Listing.read text) = ms
  obtain ⟨projects, inherits, closed, kept⟩ := exists_kept_projects built
  obtain ⟨nodup, _⟩ := build_eq_ok built
  rw [members_eq] at kept nodup
  intro e mem
  rw [inherits] at mem
  obtain ⟨⟨id, p⟩, memP, rfl⟩ := List.mem_map.1 mem
  obtain ⟨m, memM, linked⟩ := List.mem_map.1 (kept.subset memP)
  rw [Prod.mk.injEq] at linked
  obtain ⟨rfl, rfl⟩ := linked
  have follows := follows_inheritInto projects (m.follows (linkedReferences options.policy ms m))
  refine ⟨m, memM, rfl, ?_, fun c memC => ⟨m.descriptor.ofText_text_of_mem_evaluated memC, fun requested spells => ?_⟩⟩
  · rw [OrderedMap.keys, follows.configurations, List.map_map]
    exact List.map_id _
  · have toolchain := systemIncludeDirs_of_mem_members (members_eq ▸ memM)
    have directories := orderedDirectories_inherited (d := m.descriptor) (inheritedDirs_eq nodup kept closed memP c)
    rw [toolchain] at directories
    have rules := follows.searchRules memC spells
    refine ⟨rules.1, rules.2.trans directories, fun search name => ?_⟩
    rw [rules.2, directories]
    exact search.findSome?_locate_eraseDups name _

end Parsing

namespace SearchSample

/-- The id whose digits are all the same. -/
def idOf (digit : Fin 16) : ProjectId := ⟨List.replicate 32 digit, rfl⟩

/-- Two projects, the first of which depends on the second one. -/
def lines : List Text :=
  ["Project(\"\") = \"A\", \"A.vcxproj\", \"" ++ List.replicate 32 '1' ++ "\"", "ProjectSection(ProjectDependencies)",
    List.replicate 32 '2' ++ " =", "EndProjectSection", "EndProject",
    "Project(\"\") = \"B\", \"B.vcxproj\", \"" ++ List.replicate 32 '2' ++ "\"", "EndProject"]

def text : Text := lines.flatMap fun line => line ++ ['\n']

/-- A project with a directory of its own. -/
def first : Text :=
  "<Project><ItemDefinitionGroup><ClCompile><AdditionalIncludeDirectories>i</AdditionalIncludeDirectories></ClCompile>" ++
    "</ItemDefinitionGroup></Project>"

/-- A project that offers two directories, one of which the other project has. -/
def second : Text :=
  "<Project><PropertyGroup><PublicIncludeDirectories>p;./i</PublicIncludeDirectories></PropertyGroup></Project>"

def tree : FileTree :=
  ⟨.dir [("w", .dir [("s.sln", .file (Text.encode text)), ("A.vcxproj", .file (Text.encode first)),
    ("B.vcxproj", .file (Text.encode second))])], ["w"]⟩

def options : Options := ⟨"/w/s.sln", "", false, false, "12.0", [], .sensitive, ["/w/../t"]⟩

/-- The directories of the first project, as they are written. -/
def written : List Path := ["/w/i", "/w/p", "/w/./i", "/w/../t"]

/-- The directories of its search. -/
def searched : List Path := ["/w/i", "/w/p", "/t"]

theorem parse_tree : tree.readText (solutionFile tree options) = .ok text ∧
    (parse tree options).toOption.map (fun s => s.projects.entries.map fun e =>
      (e.1, e.2.references, (e.2.searchRules .sensitive "debug|win32").rules.directories)) =
        some [(idOf 1, [idOf 2], searched), (idOf 2, [], ["/t"])] ∧
    ∀ m ∈ members tree options (solutionFile tree options) (Listing.read text), m.id = idOf 1 →
      m.descriptor.evaluated.map ConfigurationName.text = [String.toList "Debug|Win32"] ∧
        documentedDirs (members tree options (solutionFile tree options) (Listing.read text)) options.systemIncludeDirs
          [idOf 2] m.descriptor ⟨"Debug|Win32"⟩ = written := by
  decide +kernel

end SearchSample

/-- The first project of the sample searches three directories, and finds in them what it would find in the four that are
written. -/
theorem searchPath_sample : ∃ s, parse SearchSample.tree SearchSample.options = .ok s ∧
    ∃ e ∈ s.projects.entries, e.1 = SearchSample.idOf 1 ∧
      (e.2.searchRules .sensitive "debug|win32").rules.directories = SearchSample.searched ∧
      (e.2.searchRules .sensitive "debug|win32").StandFor ⟨"Debug|Win32"⟩ SearchSample.written := by
  obtain ⟨read, parsed, documented⟩ := SearchSample.parse_tree
  cases outcome : parse SearchSample.tree SearchSample.options with
  | error cause =>
    rw [outcome] at parsed
    cases parsed
  | ok s =>
    obtain ⟨text, read', searchPath⟩ := parse_searchPath outcome
    obtain rfl : SearchSample.text = text := Except.ok.inj (read.symm.trans read')
    rw [outcome] at parsed
    obtain ⟨e, rest, entries, facts, _⟩ := List.map_eq_cons_iff.1 (Option.some.inj parsed)
    simp only [Prod.mk.injEq] at facts
    obtain ⟨key, references, directories⟩ := facts
    have mem : e ∈ s.projects.entries := entries ▸ List.mem_cons_self
    obtain ⟨m, memM, id, _, inConfiguration⟩ := searchPath e mem
    obtain ⟨names, written⟩ := documented m memM (id.trans key)
    obtain ⟨c, names, spelled⟩ := List.map_eq_singleton_iff.1 names
    obtain rfl : c = ⟨"Debug|Win32"⟩ := congrArg ConfigurationName.mk spelled
    have stand := (inConfiguration _ (names ▸ List.mem_cons_self)).2 "debug|win32" (by decide)
    rw [references, written] at stand
    exact ⟨s, rfl, e, mem, key, directories, stand⟩

end Solution

end SolutionGraph
