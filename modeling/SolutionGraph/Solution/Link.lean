import SolutionGraph.Solution.Basic
import SolutionGraph.Solution.Builder

/-!
# Linking projects

A project may reference another one by its id or by the path of its descriptor.

* **paths** (`Builder.resolvePath`): a path stands for the project whose descriptor is there;
* **unknown ids** (`Builder.dropUnknown`): references to projects that are not there are dropped;
* **inheritance** (`inheritPublicDirs`): a project searches the directories that the projects it references offer.
-/

namespace SolutionGraph.Solution

/-- The projects that were read, with the references that they have by path only. -/
abbrev Linked := OrderedMap ProjectId (Project × List Path)

/-- The project whose descriptor is at a path; of several, the last one. -/
def projectAt? (policy : CasePolicy) (projects : List Project) (path : Path) : Option ProjectId :=
  (projects.reverse.find? fun p => p.path.key policy == path.key policy).map Project.id

/-- A reference that leads nowhere. -/
def Builder.dangling (b : Builder) (project reference : Text) : Reading Unit :=
  b.reject (.unknownReference project reference) (.unresolvedReference project reference)

/-- Adds the project at a path to the references. -/
def Builder.resolvePath (b : Builder) (policy : CasePolicy) (all : List Project) (p : Project) (path : Path) :
    Reading Project :=
  match projectAt? policy all path with
  | some id => pure { p with references := insertNew p.references id }
  | none => do
    b.dangling p.name path.text
    return p

/-- Keeps a reference to a project that is known. -/
def Builder.keepKnown (b : Builder) (known : List ProjectId) (name : Text) (kept : List ProjectId) (id : ProjectId) :
    Reading (List ProjectId) :=
  if known.contains id then pure (kept ++ [id])
  else do
    b.dangling name id.text
    return kept

/-- Drops the references to projects that are not known. -/
def Builder.dropUnknown (b : Builder) (known : List ProjectId) (p : Project) : Reading Project := do
  let kept ← p.references.foldlM (b.keepKnown known p.name) []
  return { p with references := kept }

/-- The projects with their references resolved: first all paths, then all ids. -/
def Builder.link (b : Builder) (policy : CasePolicy) (read : Linked) : Reading (OrderedMap ProjectId Project) := do
  let all := read.values.map Prod.fst
  let resolved ← read.entries.mapM fun (id, p, paths) => do
    return (id, ← paths.foldlM (b.resolvePath policy all) p)
  let known := read.keys
  let linked ← resolved.mapM fun (id, p) => do
    return (id, ← b.dropUnknown known p)
  return ⟨linked⟩

/-- The settings of a project that another project's configuration sees: those of the same name, or else the default
ones. -/
def offeredSettings? (p : Project) (name : ConfigurationName) : Option Settings :=
  (p.configurations.get? name).or (p.defaultConfiguration.bind p.configurations.get?)

/-- The directories that the references of a project offer to one of its configurations, each once. -/
def inheritedDirs (projects : OrderedMap ProjectId Project) (p : Project) (name : ConfigurationName) : List Path :=
  let targets := p.references.filterMap projects.get?
  let offered := targets.flatMap fun target =>
    match offeredSettings? target name with
    | some s => s.publicIncludeDirs
    | none => []
  offered.foldl insertNew []

/-- A project with the directories that its references offer. -/
def inheritInto (projects : OrderedMap ProjectId Project) (p : Project) : Project :=
  { p with configurations := ⟨p.configurations.entries.map fun (name, s) =>
      (name, { s with inheritedIncludeDirs := inheritedDirs projects p name })⟩ }

/-- All projects with the directories that their references offer. -/
def inheritPublicDirs (projects : OrderedMap ProjectId Project) : OrderedMap ProjectId Project :=
  projects.mapValues (inheritInto projects)

/-- The projects that are reached from the roots. -/
def retainReached (projects : OrderedMap ProjectId Project) (roots : List ProjectId) : OrderedMap ProjectId Project :=
  let reached := reachedFrom projects roots
  projects.filter fun id _ => reached.contains id

end SolutionGraph.Solution
