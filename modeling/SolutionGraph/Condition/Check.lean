import SolutionGraph.Condition.Evaluate
import SolutionGraph.OrderedMap
import SolutionGraph.Warning

/-!
# Conditions on elements

A condition that has no truth value counts as false, and is worth a warning.
-/

namespace SolutionGraph.Condition

/-- What a condition is evaluated in: the files, the properties, the directory that paths are seen from, and the file
that the condition stands in. -/
structure Site where
  /-- The files. -/
  tree : FileTree
  /-- The directory that paths are seen from. -/
  base : Path
  /-- The file that the condition stands in. -/
  path : Path

/-- Whether a condition holds, and the warning if it has no truth value; no condition holds. -/
def Site.check (site : Site) (bag : PropertyBag) (text? : Option Text) : Bool × Option Warning :=
  match text? with
  | none => (true, none)
  | some text =>
    match evaluateText site.tree bag site.base text with
    | .ok holds => (holds, none)
    | .error e => (false, some (.condition site.path text e.message))

/-- A list of warnings with one more, unless there is none or it is in the list already. -/
def noteOnce (warnings : List Warning) (found : Option Warning) : List Warning :=
  match found with
  | some warning => insertNew warnings warning
  | none => warnings

end SolutionGraph.Condition
