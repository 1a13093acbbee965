import SolutionGraph.Path.Basic

/-!
# Warnings

What is found wrong on the way, and does not stop an analysis, is kept as a warning beside its result. A cycle of
includes is worth a note, and no problem (`Warning.isInformational`).
-/

namespace SolutionGraph

/-- A finding that does not stop an analysis. -/
inductive Warning where
  /-- A file or an entry of it was malformed and skipped. -/
  | parse (path : Path) (message : Text)
  /-- A project has no configuration of the requested name. -/
  | configurationNotFound (project requested : Text) (fallback : Option Text)
  /-- An include directive has no file. -/
  | unresolvedInclude (file : Path) (line : Nat) (name reason : Text)
  /-- A file includes itself through others. -/
  | cyclicInclude (chain : List Path)
  /-- A project references one that is not in the solution. -/
  | unresolvedReference (project reference : Text)
  /-- A requested root project is not in the solution. -/
  | unknownRoot (root : Text)
  /-- An import has no script. -/
  | unresolvedImport (script : Path) (name : Text)
  /-- A target depends on one that no script declares. -/
  | missingTarget (target prerequisite : Text)
  /-- Targets depend on each other; the first name is repeated at the end. -/
  | targetCycle (cycle : List Text)
  /-- A condition has no truth value and counts as false. -/
  | condition (path : Path) (text message : Text)
  deriving DecidableEq, Repr

namespace Warning

/-- The text of a warning. -/
def message : Warning → Text
  | .parse path message => path.text ++ ": " ++ message
  | .configurationNotFound project requested _ =>
    "configuration '" ++ requested ++ "' not found in project '" ++ project ++ "'"
  | .unresolvedInclude file line name reason =>
    file.text ++ ":" ++ Text.ofNat line ++ ": cannot resolve include '" ++ name ++ "' (" ++ reason ++ ")"
  | .cyclicInclude chain => "include cycle: " ++ Text.join " -> " (chain.map Path.text)
  | .unresolvedReference project reference =>
    "project '" ++ project ++ "' references unknown project " ++ reference
  | .unknownRoot root => "root project " ++ root ++ " is not in the solution"
  | .unresolvedImport script name => script.text ++ ": cannot resolve import '" ++ name ++ "'"
  | .missingTarget target prerequisite =>
    "target '" ++ target ++ "' depends on undeclared target '" ++ prerequisite ++ "'"
  | .targetCycle cycle => "target dependency cycle: " ++ Text.join " -> " cycle
  | .condition path text message =>
    path.text ++ ": cannot evaluate condition \"" ++ text ++ "\": " ++ message

/-- Whether a warning is a note only. -/
def isInformational : Warning → Bool
  | .cyclicInclude _ => true
  | _ => false

end Warning

end SolutionGraph
