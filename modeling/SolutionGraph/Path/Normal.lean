import SolutionGraph.Path.Basic
import SolutionGraph.Text.Lowercase

/-!
# Normal paths

Descriptors write paths with backslashes, relative to some directory, and with dots in them.

* **`Path.normalize`** folds `.` and `..` away by the text alone;
* **`Path.absolutize`** reads a written path against a base directory and normalizes it;
* **`CasePolicy`** says whether spellings that differ in case name the same file, and `Path.key` and `Path.isWithin`
  compare under it.
-/

namespace SolutionGraph

/-- Whether the spellings of a path in different letter case are told apart. -/
inductive CasePolicy where
  | sensitive
  | insensitive
  deriving DecidableEq, Repr

namespace Path

/-- Writes a path with slashes only. -/
def withSlashes (raw : Text) : Text := raw.map fun c => if c = '\\' then '/' else c

/-- Takes one component onto the components so far, innermost first. A `..` takes a name back, is dropped at the root,
and stays where there is nothing to take back. -/
def fold (done : List Component) : Component → List Component
  | .current => done
  | .parent =>
    match done with
    | .name _ :: above => above
    | .root :: _ => done
    | _ => .parent :: done
  | c => c :: done

/-- The components of a path with `.` and `..` folded away. -/
def normalComponents (p : Path) : List Component := (p.components.foldl fold []).reverse

/-- The path with `.` and `..` folded away. -/
def normalize (p : Path) : Path := ofComponents p.normalComponents

/-- The normal path that a written text names, seen from the base directory. -/
def absolutize (base : Path) (raw : Text) : Path := normalize (base.join ⟨withSlashes (Text.trim raw)⟩)

/-- The text of a directory, with a slash at its end. -/
def withTrailingSlash (dir : Path) : Text := if dir.text.getLast? = some '/' then dir.text else dir.text ++ "/"

/-- What spellings are compared by. -/
def key (policy : CasePolicy) (p : Path) : Text :=
  match policy with
  | .sensitive => p.text
  | .insensitive => Text.lower p.text

/-- Whether a path is a directory or lies below it. -/
def isWithin (policy : CasePolicy) (p dir : Path) : Bool :=
  match policy with
  | .sensitive => p.startsWith dir
  | .insensitive => Path.startsWith ⟨p.key policy⟩ ⟨dir.key policy⟩

end Path

end SolutionGraph
