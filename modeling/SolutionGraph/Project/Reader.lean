import SolutionGraph.Markup.Reader
import SolutionGraph.Project.Evaluate

/-!
# Reading projects

`Project.parse` reads a descriptor and evaluates it in each configuration that it declares, or in its default
configuration if it declares none. What the configurations list is put together, each entry once.
-/

namespace SolutionGraph

/-- Why a project could not be read. -/
inductive ProjectError where
  | notFound (path : Path)
  | disk (path : Path) (cause : DiskError)
  | malformed (path : Path)
  | notAProject (path : Path) (found : Text)
  deriving DecidableEq, Repr

namespace ProjectError

/-- The code of an error. -/
def code : ProjectError → Text
  | .notFound _ => "vcxgraph::project::not_found"
  | .disk _ _ => "vcxgraph::project::io"
  | .malformed _ => "vcxgraph::project::xml"
  | .notAProject _ _ => "vcxgraph::project::invalid"

/-- How an error is reported. -/
def message : ProjectError → Text
  | .notFound path => "project file " ++ path.text ++ " not found"
  | .disk path _ => "failed to read " ++ path.text
  | .malformed path => path.text ++ " is not well-formed XML"
  | .notAProject path found => path.text ++ ": expected a <Project> root element, found <" ++ found ++ ">"

/-- What lies behind an error. -/
def causes : ProjectError → List Text
  | .disk _ cause => [cause.message]
  | .malformed _ => ["malformed XML"]
  | _ => []

end ProjectError

namespace Project

/-- A project, and what is left for its solution to resolve. -/
structure Parsed where
  /-- The project, with the references that state an id. -/
  project : Project
  /-- The id that the descriptor declares. -/
  declaredId : Option ProjectId
  /-- The descriptors that are referenced without an id. -/
  unresolvedReferencePaths : List Path
  /-- Conditions without a truth value. -/
  warnings : List Warning

/-- What the configurations visited so far add up to. -/
structure Totals where
  /-- The settings of each configuration. -/
  configurations : OrderedMap ConfigurationName Settings
  /-- The items of all configurations, each once. -/
  items : Items
  /-- The warnings, each once. -/
  warnings : List Warning

/-- A list with the new elements of another one at its end. -/
def union {α : Type} [BEq α] (xs ys : List α) : List α := ys.foldl insertNew xs

/-- A list of paths with those of another one at its end that name a new place. -/
def unionPaths (xs ys : List Path) : List Path :=
  ys.foldl (fun paths path => if paths.any path.same then paths else paths ++ [path]) xs

/-- Takes in one configuration. -/
def Totals.add (d : Descriptor) (t : Totals) (name : ConfigurationName) : Totals :=
  let s := d.evaluate name t.warnings
  { configurations := t.configurations.insert name (d.settingsOf s.bag s.compiler)
    items :=
      { sources := unionPaths t.items.sources s.items.sources
        headers := unionPaths t.items.headers s.items.headers
        references := union t.items.references s.items.references
        referencePaths := unionPaths t.items.referencePaths s.items.referencePaths }
    warnings := s.warnings }

/-- The project that a descriptor describes. -/
def ofDescriptor (d : Descriptor) (id : ProjectId) (name : Text) : Parsed :=
  let declared := d.declaredConfigurations
  let (default, warnings) := d.defaultConfiguration declared []
  let names := if declared.isEmpty then [default] else declared
  let totals := names.foldl (Totals.add d) ⟨.empty, ⟨[], [], [], []⟩, warnings⟩
  let shown := if (Text.trim name).isEmpty then d.declaredName?.getD (d.path.stem?.getD []) else name
  { project :=
      { id
        name := shown
        path := d.path
        root := d.root
        sources := totals.items.sources
        headers := totals.items.headers
        configurations := totals.configurations
        defaultConfiguration := some default
        references := totals.items.references }
    declaredId := d.declaredId?
    unresolvedReferencePaths := totals.items.referencePaths
    warnings := totals.warnings }

/-- Reads the text of a descriptor that stands at a path. -/
def parseText (tree : FileTree) (options : Options) (path : Path) (id : ProjectId) (name source : Text) :
    Except ProjectError Parsed :=
  match Markup.parse? source with
  | none => .error (.malformed path)
  | some element =>
    if element.name = "Project" then
      .ok (ofDescriptor ⟨tree, path, path.parent?.getD ⟨[]⟩, element, options⟩ id name)
    else .error (.notAProject path element.name)

/-- Reads the descriptor at a path. -/
def parse (tree : FileTree) (options : Options) (path : Path) (id : ProjectId) (name : Text) :
    Except ProjectError Parsed :=
  if tree.isFile path then
    match tree.readText path with
    | .ok source => parseText tree options path id name source
    | .error cause => .error (.disk path cause)
  else .error (.notFound path)

end Project

end SolutionGraph
