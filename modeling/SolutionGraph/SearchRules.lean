import SolutionGraph.Project.Basic
import SolutionGraph.Warning

/-!
# Search rules

The headers of a project are sought in a list of directories: its own, then, unless the configuration leaves the standard
ones out, those that it inherits and those of the toolchain. A directory is searched once, where it first comes.
-/

namespace SolutionGraph

/-- Where headers are sought, and what is defined. -/
structure SearchRules where
  /-- The directories in the order of the search. -/
  directories : List Path
  /-- The preprocessor definitions. -/
  defines : Defines
  /-- Whether inherited and system directories were taken in. -/
  appendSystemPaths : Bool

/-- Search rules, and the configuration that they come from. -/
structure ResolvedRules where
  /-- The rules. -/
  rules : SearchRules
  /-- The configuration that was used, if there was one. -/
  configuration : Option ConfigurationName
  /-- Whether another configuration had to stand in. -/
  warnings : List Warning

namespace Settings

/-- All directories of the search, as they stand. -/
def searchPath (s : Settings) : List Path :=
  s.includeDirs ++ if s.appendSystemPaths then s.inheritedIncludeDirs ++ s.systemIncludeDirs else []

/-- Adds a directory in its normal form, unless its key is in the list. -/
def addDirectory (policy : CasePolicy) (dirs : List Path) (dir : Path) : List Path :=
  let normal := dir.normalize
  if dirs.any fun d => d.key policy == normal.key policy then dirs else dirs ++ [normal]

/-- The directories of the search in normal form, each once. -/
def orderedDirectories (policy : CasePolicy) (s : Settings) : List Path :=
  s.searchPath.foldl (addDirectory policy) []

end Settings

namespace Project

/-- The configuration of a name with its settings, under the name's declared spelling. -/
def entry? (p : Project) (name : ConfigurationName) : Option (ConfigurationName × Settings) :=
  p.configurations.entries.find? fun e => e.1 == name

/-- The configuration that a request selects: the one of that name, or else the default one and a warning. -/
def select (p : Project) (requested : Text) : Option (ConfigurationName × Settings) × List Warning :=
  match p.entry? (.ofText requested) with
  | some found => (some found, [])
  | none =>
    let fallback := p.defaultConfiguration.bind p.entry?
    (fallback, [.configurationNotFound p.name requested (fallback.map fun e => e.1.text)])

/-- The search rules of a project in a configuration. -/
def searchRules (p : Project) (policy : CasePolicy) (requested : Text) : ResolvedRules :=
  match p.select requested with
  | (some (name, settings), warnings) =>
    ⟨⟨settings.orderedDirectories policy, settings.defines, settings.appendSystemPaths⟩, some name, warnings⟩
  | (none, warnings) => ⟨⟨[], .empty, false⟩, none, warnings⟩

end Project

end SolutionGraph
