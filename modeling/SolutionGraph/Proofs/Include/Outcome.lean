import SolutionGraph.Include.SourceGraph
import SolutionGraph.Proofs.Include.Schedule

/-!
# When there is an include graph

The include graph of a file is made from the table that a search of its project leaves (`graphOf`), and there is one
when the file exists, belongs to the project and can be read (`exists_includeGraph_iff`): nothing that is wrong with a
header stands in the way.

`Sample` is a small project with a cycle of includes and a header that does not exist.
-/

namespace SolutionGraph

open Include

namespace Project

/-- The search for headers of a project in a configuration. -/
def headerSearch (project : Project) (tree : FileTree) (options : Include.Options) (configuration : Text) : Search :=
  Search.ofRules tree project options (project.searchRules options.policy configuration)

section Outcome

variable {project : Project} {tree : FileTree} {options : Include.Options} {cache : Option DirectiveCache}
  {source : Path} {configuration : Text}

/-- What comes of a file when the table of the files that were read is given. -/
def graphOf (project : Project) (tree : FileTree) (options : Include.Options) (table : List ScannedFile) (source : Path)
    (configuration : Text) : Except IncludeError Include.Graph :=
  if !tree.isFile (project.listedPath source) then .error (.notFound (project.listedPath source))
  else if !project.ownsFile options.policy (project.listedPath source) then
    .error (.notInProject (project.listedPath source) project.name)
  else
    Graph.ofReading ⟨options.policy, table⟩ (project.searchRules options.policy configuration)
      (project.listedPath source)

/-- The include graph is made from the table that the search leaves. -/
theorem includeGraph_eq_graphOf : (project.includeGraph tree options cache source configuration).1 =
    project.graphOf tree options
      ((project.headerSearch tree options configuration).discover cache (project.listedPath source)).1 source
      configuration := by
  unfold includeGraph graphOf
  simp only [listedPath]
  by_cases isFile : tree.isFile (Path.absolutize project.root source.text)
  · by_cases owned : project.ownsFile options.policy (Path.absolutize project.root source.text)
    · simp only [isFile, owned, Bool.not_true, Bool.false_eq_true, if_false]
      rfl
    · simp [isFile, owned]
  · simp [isFile]

theorem graphOf_eq_ok {table : List ScannedFile} {g : Include.Graph}
    (h : project.graphOf tree options table source configuration = .ok g) :
    tree.isFile (project.listedPath source) ∧ project.ownsFile options.policy (project.listedPath source) ∧
      Graph.ofReading ⟨options.policy, table⟩ (project.searchRules options.policy configuration)
        (project.listedPath source) = .ok g := by
  unfold graphOf at h
  split at h
  · cases h
  · rename_i isFile
    split at h
    · cases h
    · rename_i owned
      exact ⟨by simpa using isFile, by simpa using owned, h⟩

theorem graphOf_eq_ofReading {table : List ScannedFile} (isFile : tree.isFile (project.listedPath source))
    (owned : project.ownsFile options.policy (project.listedPath source)) :
    project.graphOf tree options table source configuration =
      Graph.ofReading ⟨options.policy, table⟩ (project.searchRules options.policy configuration)
        (project.listedPath source) := by
  simp only [graphOf, isFile, owned, Bool.not_true, Bool.false_eq_true, if_false]

/-- What the source includes is read from disk if there is no cache. -/
theorem includes?_source (project : Project) (tree : FileTree) (options : Include.Options) (source : Path)
    (configuration : Text) :
    Reading.includes? ⟨options.policy, ((project.headerSearch tree options configuration).discover none source).1⟩
        (source.key options.policy) =
      some ((project.headerSearch tree options configuration).includesOf source) := by
  have covers := (project.headerSearch tree options configuration).discover_covers source
  obtain ⟨f, hf, e⟩ := covers.source_mem
  rw [← e]
  rw [← e] at covers hf
  exact covers.includes?_key hf

/-- **There is an include graph** exactly when the file exists, belongs to the project and can be read. -/
theorem exists_includeGraph_iff :
    (∃ g, (project.includeGraph tree options none source configuration).1 = .ok g) ↔
      tree.isFile (project.listedPath source) ∧ project.ownsFile options.policy (project.listedPath source) ∧
        ∃ text, tree.readLossy (project.listedPath source) = .ok text := by
  have read := includes?_source project tree options (project.listedPath source) configuration
  constructor
  · rintro ⟨g, h⟩
    rw [includeGraph_eq_graphOf] at h
    obtain ⟨isFile, owned, made⟩ := graphOf_eq_ok h
    refine ⟨isFile, owned, ?_⟩
    unfold Graph.ofReading at made
    simp only [read, Option.getD_some] at made
    split at made
    · cases made
    · rename_i includes ok
      obtain ⟨text, readable, _⟩ := Search.includesOf_eq_ok_iff.1 ok
      exact ⟨text, readable⟩
  · rintro ⟨isFile, owned, text, readable⟩
    rw [includeGraph_eq_graphOf, graphOf_eq_ofReading isFile owned]
    have ok : (project.headerSearch tree options configuration).includesOf (project.listedPath source) = .ok _ :=
      Search.includesOf_eq_ok_iff.2 ⟨text, readable, rfl⟩
    unfold Graph.ofReading
    simp only [read, Option.getD_some, ok]
    exact ⟨_, rfl⟩

end Outcome

end Project

/-! ## A sample -/

namespace Sample

/-- A disk with two files that include each other, and a directive for a header that does not exist. -/
def tree : FileTree :=
  ⟨.dir [("w", .dir [("m.c", .file (Text.encode "#include \"a.h\"\n#include \"x.h\"")),
    ("a.h", .file (Text.encode "#include \"m.c\""))])], ["w"]⟩

/-- A project that compiles one of the files. -/
def project : Project :=
  ⟨⟨List.replicate 32 ⟨0, by decide⟩, rfl⟩, "App", "/w/App.vcxproj", "/w", ["m.c"], [], .empty, none, []⟩

/-- Options that ignore case. -/
def ignoringCase : Include.Options := ⟨.insensitive, []⟩

/-- The sample has an include graph. -/
theorem exists_includeGraph (configuration : Text) :
    ∃ g, (project.includeGraph tree .standard none "m.c" configuration).1 = .ok g :=
  Project.exists_includeGraph_iff.2 ⟨by decide, by decide, "#include \"a.h\"\n#include \"x.h\"", rfl⟩

/-- The file of the project includes the header. -/
theorem includes_header : (project.headerSearch tree .standard []).Includes (project.listedPath "m.c") "/w/a.h" :=
  ⟨"#include \"a.h\"\n#include \"x.h\"", rfl, ⟨1, "a.h", .quoted⟩, by decide, rfl⟩

/-- The header includes the file of the project. -/
theorem includes_source : (project.headerSearch tree .standard []).Includes "/w/a.h" (project.listedPath "m.c") :=
  ⟨"#include \"m.c\"", rfl, ⟨1, "m.c", .quoted⟩, by decide, rfl⟩

end Sample

end SolutionGraph
