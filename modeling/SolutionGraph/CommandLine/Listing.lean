import SolutionGraph.Solution.Basic

/-!
# Listings for the terminal

How a solution is listed, and how the warnings of an analysis are put below its result.
-/

namespace SolutionGraph

namespace Solution

/-- The name of a referenced project, or its id if it is not in the solution. -/
def referenceName (s : Solution) (id : ProjectId) : Text :=
  match s.project? id with
  | some p => p.name
  | none => id.text

/-- The lines of a project. -/
def projectLines (s : Solution) (p : Project) : Text :=
  let names := p.configurations.keys.map ConfigurationName.text
  let references : Text :=
    if p.references.isEmpty then []
    else "  references: " ++ Text.join ", " (p.references.map s.referenceName) ++ "\n"
  p.name ++ " " ++ p.id.text ++ "\n  path: " ++ p.path.text ++ "\n  configurations: " ++ Text.join ", " names ++ "\n" ++
    references

/-- The projects of a solution, each with its configurations and references. -/
def listing (s : Solution) : Text := s.projects.values.flatMap s.projectLines

end Solution

/-- The line of a warning below a result. -/
def Warning.line (w : Warning) : Text := "  " ++ w.message ++ "\n"

/-- A result with the warnings below it, if there are any. -/
def withWarnings (body : Text) (warnings : List Warning) : Text :=
  if warnings.isEmpty then body else body ++ "\nwarnings:\n" ++ warnings.flatMap Warning.line

end SolutionGraph
