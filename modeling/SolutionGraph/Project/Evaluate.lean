import SolutionGraph.Condition.Check
import SolutionGraph.Markup.Basic
import SolutionGraph.Project.Basic
import SolutionGraph.Project.Items
import SolutionGraph.Text.Position

/-!
# Evaluating a project descriptor

A descriptor is evaluated once for each configuration: its groups are visited in document order, and those whose
condition does not hold are passed over.

* **properties** (`applyProperties`): each property element sets a property to its text with references replaced;
* **compiler options** (`applyDefinition`): a list may take in the value so far by referring to itself
  (`substituteMetadata`), and replaces it otherwise;
* **items** (`collectItem`): source files, headers and references to other projects;
* **settings** (`settingsOf`): what properties and options say about directories and definitions.
-/

namespace SolutionGraph.Project

open Markup (Element)

/-- What a descriptor does not say itself. -/
structure Options where
  /-- The directory of the solution, if there is one. -/
  solutionDir : Option Path
  /-- The toolchain's directories, which are searched last. -/
  systemIncludeDirs : List Path

/-- A descriptor and where it stands. -/
structure Descriptor where
  /-- The files. -/
  tree : FileTree
  /-- The path of the descriptor. -/
  path : Path
  /-- The directory of the descriptor. -/
  root : Path
  /-- The outermost element. -/
  element : Element
  /-- What the descriptor does not say itself. -/
  options : Options

/-- The compiler options that matter for includes, as texts with references replaced. -/
structure CompilerOptions where
  /-- The list of directories. -/
  includeDirs : Text
  /-- The list of definitions. -/
  defines : Text
  /-- Whether the standard directories are left out, if that is said. -/
  ignoreStandardPath : Option Bool

/-- What the items of a project name, in order. -/
structure Items where
  /-- Source files. -/
  sources : List Path
  /-- Headers. -/
  headers : List Path
  /-- Projects referenced by id. -/
  references : List ProjectId
  /-- Projects referenced by the path of their descriptor only. -/
  referencePaths : List Path

/-- The state of an evaluation. -/
structure State where
  /-- The properties. -/
  bag : PropertyBag
  /-- The compiler options. -/
  compiler : CompilerOptions
  /-- The items. -/
  items : Items
  /-- The warnings, each once. -/
  warnings : List Warning

namespace Descriptor

/-- Where the descriptor's conditions are evaluated. -/
def site (d : Descriptor) : Condition.Site := ⟨d.tree, d.root, d.path⟩

/-- Visits an element if its condition holds, and notes a condition without a truth value. -/
def guard (d : Descriptor) (visit : State → Element → State) (s : State) (e : Element) : State :=
  let (holds, found) := d.site.check s.bag (e.attribute? "Condition")
  let s := { s with warnings := Condition.noteOnce s.warnings found }
  if holds then visit s e else s

/-! ## Properties -/

/-- The properties that a descriptor starts with. -/
def baseProperties (d : Descriptor) (configuration? : Option ConfigurationName) : PropertyBag :=
  let stem := d.path.stem?.getD []
  let fileName := d.path.fileName?.getD []
  let dir := d.root.withTrailingSlash
  let selected := match configuration? with
    | none => PropertyBag.empty
    | some name =>
      let bag := PropertyBag.empty.setGlobal "Configuration" name.configuration
      match name.platform? with
      | some platform => bag.setGlobal "Platform" platform
      | none => bag
  let bag := ((((((((selected.setGlobal "ProjectDir" dir).setGlobal "ProjectPath" d.path.text).setGlobal
    "ProjectFileName" fileName).setGlobal "MSBuildProjectDirectory" d.root.text).setGlobal
    "MSBuildProjectFile" fileName).setGlobal "MSBuildProjectName" stem).setGlobal
    "MSBuildThisFileDirectory" dir).set "ProjectName" stem)
  match d.options.solutionDir with
  | some solutionDir => bag.setGlobal "SolutionDir" solutionDir.withTrailingSlash
  | none => bag

/-- Sets a property to the text of its element. -/
def applyProperty (s : State) (e : Element) : State :=
  { s with bag := s.bag.set e.name (Text.trim (s.bag.expand (e.text?.getD []))) }

/-- Sets the properties of a group. -/
def applyProperties (d : Descriptor) (s : State) (group : Element) : State :=
  group.elements.foldl (d.guard applyProperty) s

/-! ## Compiler options -/

/-- Takes in the next reference: what stands between the last one and this one, and then the value so far. -/
def substituteAt (raw needle previous : Text) (state : Text × Nat) (position : Nat) : Text × Nat :=
  let (out, last) := state
  (out ++ (Text.slice? raw last position).getD [] ++ previous, position + Text.byteLength needle)

/-- A text with the value so far in place of each reference to the option itself, in any case. The references are found in
a copy in small letters, and the text is cut at their positions. -/
def substituteMetadata (name previous raw : Text) : Text :=
  let needle := Text.asciiLower ("%(" ++ name ++ ")")
  let (out, last) := (Text.matchIndices needle (Text.asciiLower raw)).foldl (substituteAt raw needle previous) ([], 0)
  out ++ (Text.sliceFrom? raw last).getD []

/-- The new value of an option that is a list. -/
def accumulate (bag : PropertyBag) (name previous raw : Text) : Text :=
  bag.expand (substituteMetadata name previous raw)

/-- Takes in one compiler option. -/
def applyOption (s : State) (e : Element) : State :=
  let raw := e.text?.getD []
  let o := s.compiler
  if e.name = "AdditionalIncludeDirectories" then
    { s with compiler := { o with includeDirs := accumulate s.bag e.name o.includeDirs raw } }
  else if e.name = "PreprocessorDefinitions" then
    { s with compiler := { o with defines := accumulate s.bag e.name o.defines raw } }
  else if e.name = "IgnoreStandardIncludePath" then
    { s with compiler := { o with ignoreStandardPath := truth? (s.bag.expand raw) } }
  else s

/-- Takes in the compiler options of one definition. -/
def applyDefinition (d : Descriptor) (s : State) (definition : Element) : State :=
  definition.elements.foldl (d.guard applyOption) s

/-- Takes in the compiler options of a group of definitions. -/
def applyDefinitions (d : Descriptor) (s : State) (group : Element) : State :=
  (group.elementsNamed "ClCompile").foldl (d.guard d.applyDefinition) s

/-! ## Items -/

/-- The id that a reference to another project states. -/
def referencedId? (item : Element) : Option ProjectId := do
  let project ← (item.elementsNamed "Project").head?
  ProjectId.parse? (← project.text?)

/-- Takes in one item. -/
def collectItem (d : Descriptor) (s : State) (item : Element) : State :=
  let included := s.bag.expand ((item.attribute? "Include").getD [])
  let exclude := s.bag.expand ((item.attribute? "Exclude").getD [])
  let items := s.items
  if item.name = "ClCompile" then
    { s with items := { items with sources := items.sources ++ expandItems d.tree d.root included exclude } }
  else if item.name = "ClInclude" then
    { s with items := { items with headers := items.headers ++ expandItems d.tree d.root included exclude } }
  else if item.name = "ProjectReference" then
    match referencedId? item with
    | some id => { s with items := { items with references := items.references ++ [id] } }
    | none =>
      let paths := (splitList included).map (Path.absolutize d.root)
      { s with items := { items with referencePaths := items.referencePaths ++ paths } }
  else s

/-- Takes in the items of a group. -/
def collectGroup (d : Descriptor) (s : State) (group : Element) : State :=
  group.elements.foldl (d.guard d.collectItem) s

/-! ## Configurations -/

/-- The configurations that the descriptor declares, each once. -/
def declaredConfigurations (d : Descriptor) : List ConfigurationName :=
  let items := (d.element.elementsNamed "ItemGroup").flatMap fun group => group.elementsNamed "ProjectConfiguration"
  (items.filterMap fun item => item.attribute? "Include").foldl (fun names text => insertNew names (.ofText text)) []

/-- A state before any element is visited. -/
def start (bag : PropertyBag) (warnings : List Warning) : State :=
  ⟨bag, ⟨[], [], none⟩, ⟨[], [], [], []⟩, warnings⟩

/-- The configuration of a project that declares none. -/
def implicitConfiguration : ConfigurationName := .ofParts "Debug" "Win32"

/-- The configuration that is used when none is given: the one that the properties name, if it is declared or nothing is
declared, or else the first declared one. -/
def defaultConfiguration (d : Descriptor) (declared : List ConfigurationName) (warnings : List Warning) :
    ConfigurationName × List Warning :=
  let s := (d.element.elementsNamed "PropertyGroup").foldl (d.guard d.applyProperties)
    (start (d.baseProperties none) warnings)
  let candidate := match s.bag.get? "Configuration", s.bag.get? "Platform" with
    | some configuration, some platform => some (ConfigurationName.ofParts configuration platform)
    | _, _ => none
  let chosen := match candidate, declared with
    | some name, [] => name
    | none, [] => implicitConfiguration
    | some name, first :: _ => if declared.contains name then name else first
    | none, first :: _ => first
  (chosen, s.warnings)

/-- Visits one group of the descriptor. -/
def applyGroup (d : Descriptor) (s : State) (group : Element) : State :=
  if group.name = "PropertyGroup" then d.applyProperties s group
  else if group.name = "ItemDefinitionGroup" then d.applyDefinitions s group
  else if group.name = "ItemGroup" then d.collectGroup s group
  else s

/-- The directories of a list, seen from the descriptor. -/
def directories (d : Descriptor) (raw : Text) : List Path := (splitList raw).map (Path.absolutize d.root)

/-- The settings that properties and compiler options stand for. -/
def settingsOf (d : Descriptor) (bag : PropertyBag) (compiler : CompilerOptions) : Settings :=
  let includeDirs := d.directories compiler.includeDirs
  let allPublic := (bag.get? "AllProjectIncludesArePublic").bind truth? == some true
  { includeDirs
    publicIncludeDirs :=
      (if allPublic then includeDirs else []) ++ d.directories ((bag.get? "PublicIncludeDirectories").getD [])
    inheritedIncludeDirs := []
    systemIncludeDirs := d.directories ((bag.get? "IncludePath").getD []) ++ d.options.systemIncludeDirs
    defines := parseDefines compiler.defines
    appendSystemPaths := compiler.ignoreStandardPath != some true }

/-- The state after the whole descriptor is visited in one configuration. -/
def evaluate (d : Descriptor) (configuration : ConfigurationName) (warnings : List Warning) : State :=
  d.element.elements.foldl (d.guard d.applyGroup) (start (d.baseProperties (some configuration)) warnings)

/-- The text of a property that is set without a condition on its group. -/
def unconditionalProperty (d : Descriptor) (name : Text) : Option Text := do
  let groups := (d.element.elementsNamed "PropertyGroup").filter fun group => (group.attribute? "Condition").isNone
  let property ← (groups.flatMap Element.elements).find? fun e => e.name == name
  let text := Text.trim (← property.text?)
  if text.isEmpty then none else some text

/-- The id that the descriptor declares. -/
def declaredId? (d : Descriptor) : Option ProjectId := (d.unconditionalProperty "ProjectGuid").bind ProjectId.parse?

/-- The name that the descriptor declares. -/
def declaredName? (d : Descriptor) : Option Text :=
  (d.unconditionalProperty "ProjectName").or (d.unconditionalProperty "RootNamespace")

end Descriptor

end SolutionGraph.Project
