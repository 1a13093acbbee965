import SolutionGraph.Proofs.Path.Canonical
import SolutionGraph.Proofs.Project.Rules

/-!
# Directories in settings

The directories that a descriptor lists are seen from its own directory, which is absolute. So they are absolute and in
canonical spelling (`isRooted_of_mem_directories`), wherever they are listed. The toolchain's directories come with the
options and are taken as they are given.

* **`Settings.IsRooted`**: all directories of the settings are absolute and canonical;
* **`isRooted_settingsOf_iff`**: those of an evaluation are so if and only if the given ones are;
* **`parseText_isRooted_iff`**: the same of every configuration of a project that was read, with what is so in any case.
-/

namespace SolutionGraph

/-- A path that starts at the root, in canonical spelling. -/
def Path.IsRooted (p : Path) : Prop := p.isAbsolute ∧ p.IsCanonical

theorem Path.isRooted_absolutize {base : Path} (absolute : base.isAbsolute) (raw : Text) :
    (Path.absolutize base raw).IsRooted :=
  ⟨Path.isAbsolute_absolutize absolute raw, Path.isCanonical_normalize _⟩

/-- All directories that the settings of one project name are absolute and canonical. -/
structure Settings.IsRooted (s : Settings) : Prop where
  own : ∀ dir ∈ s.includeDirs, dir.IsRooted
  offered : ∀ dir ∈ s.publicIncludeDirs, dir.IsRooted
  toolchain : ∀ dir ∈ s.systemIncludeDirs, dir.IsRooted

namespace Project

namespace Descriptor

variable {d : Descriptor} {bag : PropertyBag} {compiler : CompilerOptions}

theorem isRooted_of_mem_directories (absolute : d.root.isAbsolute) {raw : Text} :
    ∀ dir ∈ d.directories raw, dir.IsRooted := by
  intro dir listed
  obtain ⟨entry, _, rfl⟩ := List.mem_map.1 listed
  exact Path.isRooted_absolutize absolute entry

/-- A project offers its own directories, or those that it lists for others. -/
theorem isRooted_of_mem_publicIncludeDirs (absolute : d.root.isAbsolute) :
    ∀ dir ∈ (d.settingsOf bag compiler).publicIncludeDirs, dir.IsRooted := by
  intro dir offered
  rcases List.mem_append.1 offered with own | listed
  · split at own
    · exact isRooted_of_mem_directories absolute dir own
    · cases own
  · exact isRooted_of_mem_directories absolute dir listed

/-- **The given directories decide**: what a descriptor lists itself is absolute and canonical. -/
theorem isRooted_settingsOf_iff (absolute : d.root.isAbsolute) :
    (d.settingsOf bag compiler).IsRooted ↔ ∀ dir ∈ d.options.systemIncludeDirs, dir.IsRooted := by
  constructor
  · exact fun rooted dir given => rooted.toolchain dir (List.mem_append_right _ given)
  · intro given
    refine ⟨isRooted_of_mem_directories absolute, isRooted_of_mem_publicIncludeDirs absolute, fun dir mem => ?_⟩
    rcases List.mem_append.1 mem with listed | mem
    · exact isRooted_of_mem_directories absolute dir listed
    · exact given dir mem

end Descriptor

section Parsing

variable {tree : FileTree} {options : Options} {path root : Path} {id : ProjectId} {name source : Text}
  {parsed : Parsed}

/-- **The directories of a project that was read** are absolute and canonical in all configurations if and only if the given
directories of the toolchain are. The project's own directories and those that it offers are so in any case, and the given
directories come after those that the descriptor lists. -/
theorem parseText_isRooted_iff (absolute : path.isAbsolute) (inside : path.parent? = some root)
    (read : parseText tree options path id name source = .ok parsed) :
    ((∀ e ∈ parsed.project.configurations.entries, e.2.IsRooted) ↔ ∀ dir ∈ options.systemIncludeDirs, dir.IsRooted) ∧
      ∀ e ∈ parsed.project.configurations.entries,
        (∀ dir ∈ e.2.includeDirs, dir.IsRooted) ∧ (∀ dir ∈ e.2.publicIncludeDirs, dir.IsRooted) ∧
          ∃ listed : List Path, e.2.systemIncludeDirs = listed ++ options.systemIncludeDirs ∧
            ∀ dir ∈ listed, dir.IsRooted := by
  obtain ⟨element, _, rfl⟩ := exists_element_of_parseText read
  rw [inside, Option.getD_some]
  generalize here : (⟨tree, path, root, element, options⟩ : Descriptor) = d
  have rootAbsolute : d.root.isAbsolute := here ▸ Path.isAbsolute_parent? absolute inside
  have given : d.options = options := here ▸ rfl
  rw [← given]
  rw [entries_configurations, List.forall_mem_map, List.forall_mem_map]
  refine ⟨⟨fun rooted => ?_, fun given c _ => (Descriptor.isRooted_settingsOf_iff rootAbsolute).2 given⟩, fun c _ => ?_⟩
  · -- there is a configuration in any project
    obtain ⟨c, evaluated, _⟩ := d.exists_mem_evaluated_standIn
    exact (Descriptor.isRooted_settingsOf_iff rootAbsolute).1 (rooted c evaluated)
  · exact ⟨Descriptor.isRooted_of_mem_directories rootAbsolute, Descriptor.isRooted_of_mem_publicIncludeDirs rootAbsolute,
      _, rfl, Descriptor.isRooted_of_mem_directories rootAbsolute⟩

end Parsing

namespace DirectoriesSample

/-- A descriptor with a directory for the toolchain's headers, seen from its own. -/
def source : Text :=
  "<Project><PropertyGroup><IncludePath>..\\c</IncludePath></PropertyGroup></Project>"

/-- What is read from the descriptor when the toolchain has some directories. -/
def outcome (given : List Path) : Except ProjectError Parsed :=
  parseText ⟨.dir [], []⟩ ⟨some "/w", given⟩ "/w/App/App.vcxproj" ⟨List.replicate 32 ⟨9, by decide⟩, rfl⟩ "App" source

/-- The toolchain's directories in the project's configurations. -/
def systemDirs (given : List Path) : Option (List (List Path)) :=
  (outcome given).toOption.map fun parsed => parsed.project.configurations.values.map Settings.systemIncludeDirs

end DirectoriesSample

/-- A given directory in canonical spelling leaves all directories canonical. -/
theorem isRooted_sample : Path.isAbsolute "/w/App/App.vcxproj" ∧ Path.parent? "/w/App/App.vcxproj" = some "/w/App" ∧
    ∃ parsed, DirectoriesSample.outcome ["/opt/sdk"] = .ok parsed ∧
      ∀ e ∈ parsed.project.configurations.entries, e.2.IsRooted := by
  have inside : Path.parent? "/w/App/App.vcxproj" = some "/w/App" := by decide +kernel
  have some : (DirectoriesSample.outcome ["/opt/sdk"]).toOption.isSome := by decide +kernel
  cases read : DirectoriesSample.outcome ["/opt/sdk"] with
  | error cause =>
    rw [read] at some
    cases some
  | ok parsed =>
    have canonical : Path.normalize "/opt/sdk" = "/opt/sdk" := by decide +kernel
    refine ⟨rfl, inside, parsed, rfl, (parseText_isRooted_iff rfl inside read).1.2 fun dir given => ?_⟩
    rw [List.mem_singleton.1 given]
    exact ⟨rfl, canonical⟩

/-- **Given directories are taken as they are given**: one with dots in it stays so, and a relative one stays relative,
beside the directory that the descriptor lists. -/
theorem not_isRooted_given :
    DirectoriesSample.systemDirs ["/opt/../sdk", "sdk"] = some [[⟨"/w/c"⟩, ⟨"/opt/../sdk"⟩, ⟨"sdk"⟩]] ∧
      Path.IsRooted "/w/c" ∧ ¬ Path.IsRooted "/opt/../sdk" ∧ ¬ Path.IsRooted "sdk" := by
  have canonical : Path.normalize "/w/c" = "/w/c" := by decide +kernel
  have dots : Path.normalize "/opt/../sdk" ≠ "/opt/../sdk" := by decide +kernel
  have relative : ¬ Path.isAbsolute "sdk" := by decide
  exact ⟨by decide +kernel, ⟨rfl, canonical⟩, fun rooted => dots rooted.2, fun rooted => relative rooted.1⟩

end Project

end SolutionGraph
