import SolutionGraph.OrderedMap
import SolutionGraph.Path.Basic
import SolutionGraph.Property.Value

/-!
# Configurations

A configuration is a named build variant such as `Debug|x64`, and its settings say where a project's headers are.
Names are compared up to the case of ASCII letters and keep their spelling.
-/

namespace SolutionGraph

/-- The name of a build variant. -/
structure ConfigurationName where
  /-- The name as written, without blanks around it. -/
  text : Text
  deriving Repr

namespace ConfigurationName

/-- The name that a text spells. -/
def ofText (raw : Text) : ConfigurationName := ⟨Text.trim raw⟩

/-- The name of a configuration on a platform. -/
def ofParts (configuration platform : Text) : ConfigurationName := ofText (configuration ++ "|" ++ platform)

/-- What names are compared by. -/
def key (name : ConfigurationName) : Text := Text.asciiLower name.text

instance : BEq ConfigurationName := ⟨fun a b => a.key == b.key⟩

/-- The part before the first bar. -/
def configuration (name : ConfigurationName) : Text :=
  match Text.splitOnce '|' name.text with
  | some (before, _) => before
  | none => name.text

/-- The part after the first bar, if there is one. -/
def platform? (name : ConfigurationName) : Option Text := (Text.splitOnce '|' name.text).map Prod.snd

end ConfigurationName

/-- Preprocessor definitions: names with or without a value, in the order of their declaration. -/
abbrev Defines := OrderedMap Text (Option Text)

/-- Reads a list of definitions such as `WIN32;LEVEL=2`. -/
def parseDefines (raw : Text) : Defines :=
  OrderedMap.ofList <| (splitList raw).map fun item =>
    match Text.splitOnce '=' item with
    | some (name, value) => (Text.trim name, some (Text.trim value))
    | none => (item, none)

/-- What one configuration of a project says about its headers. -/
structure Settings where
  /-- The project's own directories. -/
  includeDirs : List Path
  /-- The directories that it offers to projects that reference it. -/
  publicIncludeDirs : List Path
  /-- The directories that the projects it references offer. -/
  inheritedIncludeDirs : List Path
  /-- The directories of the toolchain. -/
  systemIncludeDirs : List Path
  /-- The preprocessor definitions. -/
  defines : Defines
  /-- Whether inherited and system directories are searched after the project's own. -/
  appendSystemPaths : Bool

end SolutionGraph
