import SolutionGraph.Solution.Listing

/-!
# Writing solution files

`Layout.print` writes the header, a block for each project with a section for its dependencies, and the two sections on
configurations.
-/

namespace SolutionGraph.Solution

/-- What a solution file says about a project in a configuration of the solution. -/
inductive Mapping where
  /-- Which configuration of the project is active. -/
  | active (given : ActiveConfiguration)
  /-- That the project is built, and in which configuration. -/
  | build (given : ActiveConfiguration)

/-- What is written to a solution file. -/
structure Layout where
  /-- The format version. -/
  formatVersion : Text
  /-- The projects. -/
  entries : List Entry
  /-- The configurations of the solution. -/
  configurations : List ConfigurationName
  /-- What is said about the projects in these configurations. -/
  mappings : List Mapping
  /-- The comments under the header. -/
  remarks : List Text

/-- A text in double quotes. -/
def quoted (t : Text) : Text := "\"" ++ t ++ "\""

/-- The line that opens a section of a kind of block. -/
def sectionStart (block name moment : Text) : Text := "\t" ++ block ++ "Section(" ++ name ++ ") = " ++ moment

/-- The line that closes a section. -/
def sectionEnd (block : Text) : Text := "\tEnd" ++ block ++ "Section"

/-- A line of a section. -/
def sectionLine (entry : Text) : Text := "\t\t" ++ entry

/-- The lines of a section. -/
def sectionLines (block name moment : Text) (entries : List Text) : List Text :=
  sectionStart block name moment :: entries.map sectionLine ++ [sectionEnd block]

/-- A key and its value. -/
def assignment (key value : Text) : Text := key ++ " = " ++ value

/-- The line that opens a project's block. -/
def Entry.line (e : Entry) : Text :=
  "Project(" ++ quoted e.kind ++ ") = " ++ quoted e.name ++ ", " ++ quoted e.path ++ ", " ++ quoted e.id.text

/-- The lines of a project's block. A project without dependencies has no section for them. -/
def Entry.lines (e : Entry) : List Text :=
  let dependencies := e.dependencies.map fun id => assignment id.text id.text
  e.line ::
    (if dependencies.isEmpty then []
      else sectionLines "Project" "ProjectDependencies" "postProject" dependencies) ++
    [String.toList "EndProject"]

/-- The line of what is said about a project in a configuration. -/
def Mapping.line : Mapping → Text
  | .active given =>
    assignment (given.project.text ++ "." ++ given.ofSolution.text ++ ".ActiveCfg") given.ofProject.text
  | .build given => assignment (given.project.text ++ "." ++ given.ofSolution.text ++ ".Build.0") given.ofProject.text

namespace Layout

/-- The lines of a solution file. -/
def lines (l : Layout) : List Text :=
  [[], headerStart ++ l.formatVersion] ++ l.remarks.map (fun remark : Text => "# " ++ remark) ++
    l.entries.flatMap Entry.lines ++ [String.toList "Global"] ++
    sectionLines "Global" "SolutionConfigurationPlatforms" "preSolution"
      (l.configurations.map fun name => assignment name.text name.text) ++
    sectionLines "Global" "ProjectConfigurationPlatforms" "postSolution" (l.mappings.map Mapping.line) ++
    [String.toList "EndGlobal"]

/-- The text of a solution file. -/
def print (l : Layout) : Text := l.lines.flatMap fun line => line ++ "\n"

end Layout

end SolutionGraph.Solution
