import SolutionGraph.Include.Graph
import SolutionGraph.Json.Value
import SolutionGraph.Solution.Basic
import SolutionGraph.Target.Tree

/-!
# Reports as JSON

Solutions, include graphs and target trees as JSON records. The order of the fields is fixed.
-/

namespace SolutionGraph

open Json (Value)

/-! ## Parts -/

/-- A list of texts. -/
def Json.texts (ts : List Text) : Value := .list (ts.map .text)

/-- A list of paths. -/
def Json.paths (ps : List Path) : Value := .list (ps.map fun p => .text p.text)

/-- A warning, by its kind and what it is about. -/
def Warning.json : Warning → Value
  | .parse path message => .record [("kind", .text "parse"), ("path", .text path.text), ("message", .text message)]
  | .configurationNotFound project requested fallback =>
    .record [("kind", .text "configuration_not_found"), ("project", .text project), ("requested", .text requested),
      ("fallback", .ofOption .text fallback)]
  | .unresolvedInclude file line name reason =>
    .record [("kind", .text "unresolved_include"), ("file", .text file.text), ("line", .number line),
      ("name", .text name), ("reason", .text reason)]
  | .cyclicInclude chain => .record [("kind", .text "cyclic_include"), ("chain", Json.paths chain)]
  | .unresolvedReference project reference =>
    .record [("kind", .text "unresolved_reference"), ("project", .text project), ("reference", .text reference)]
  | .unknownRoot root => .record [("kind", .text "unknown_root"), ("root", .text root)]
  | .unresolvedImport script name =>
    .record [("kind", .text "unresolved_import"), ("script", .text script.text), ("import", .text name)]
  | .missingTarget target prerequisite =>
    .record [("kind", .text "missing_target"), ("target", .text target), ("prerequisite", .text prerequisite)]
  | .targetCycle cycle => .record [("kind", .text "target_cycle"), ("cycle", Json.texts cycle)]
  | .condition path text message =>
    .record [("kind", .text "condition"), ("path", .text path.text), ("condition", .text text),
      ("message", .text message)]

/-- A list of warnings. -/
def Json.warnings (ws : List Warning) : Value := .list (ws.map Warning.json)

/-! ## Solutions -/

/-- Settings of a configuration. -/
def Settings.json (s : Settings) : Value :=
  .record [("include_dirs", Json.paths s.includeDirs), ("public_include_dirs", Json.paths s.publicIncludeDirs),
    ("inherited_include_dirs", Json.paths s.inheritedIncludeDirs),
    ("system_include_dirs", Json.paths s.systemIncludeDirs),
    ("defines", .record (s.defines.entries.map fun (name, value) => (name, .ofOption .text value))),
    ("append_system_paths", .bool s.appendSystemPaths)]

/-- A project. -/
def Project.json (p : Project) : Value :=
  .record [("id", .text p.id.text), ("name", .text p.name), ("path", .text p.path.text), ("root", .text p.root.text),
    ("sources", Json.paths p.sources), ("headers", Json.paths p.headers),
    ("configurations", .record (p.configurations.entries.map fun (name, s) => (name.text, s.json))),
    ("default_configuration", .ofOption (fun name => .text name.text) p.defaultConfiguration),
    ("references", Json.texts (p.references.map ProjectId.text))]

/-- A solution. -/
def Solution.json (s : Solution) : Value :=
  .record [("path", .text s.path.text),
    ("projects", .record (s.projects.entries.map fun (id, p) => (id.text, p.json))),
    ("configurations", Json.texts (s.configurations.map ConfigurationName.text)),
    ("project_configurations", .record (s.projectConfigurations.entries.map fun (id, mapping) =>
      (id.text, .record (mapping.entries.map fun (solutionName, name) => (solutionName.text, .text name.text))))),
    ("warnings", Json.warnings s.warnings)]

/-! ## Include graphs -/

namespace Include

/-- A directive. -/
def Directive.json (d : Directive) : Value :=
  .record [("line", .number d.line), ("name", .text d.name), ("style", .text d.style.text)]

/-- The fields that tell what a node stands for. -/
def NodeKind.fields : NodeKind → List (Text × Value)
  | .source => [("kind", .text "source")]
  | .resolved => [("kind", .text "resolved")]
  | .unresolved reason => [("kind", .text "unresolved"), ("reason", .text reason)]
  | .backReference target => [("kind", .text "back_reference"), ("target", .number target)]
  | .excluded => [("kind", .text "excluded")]

/-- A node. -/
def Node.json (n : Node) : Value :=
  let place : List (Text × Value) := [("path", .text n.path.text)]
  let links : List (Text × Value) :=
    [("directive", .ofOption Directive.json n.directive), ("children", .list (n.children.map .number))]
  .record (place ++ n.kind.fields ++ links)

/-- An include graph. -/
def Graph.json (g : Graph) : Value :=
  .record [("nodes", .list (g.nodes.map Node.json)), ("root", .number g.root),
    ("configuration", .ofOption (fun name => .text name.text) g.configuration),
    ("warnings", Json.warnings g.warnings)]

end Include

/-! ## Target trees -/

/-- A target. -/
def Target.json (t : Target) : Value :=
  .record [("name", .text t.name), ("prerequisites", Json.texts t.prerequisites),
    ("before_targets", Json.texts t.beforeTargets), ("after_targets", Json.texts t.afterTargets),
    ("script", .text t.script.text), ("condition", .ofOption .text t.condition), ("enabled", .bool t.enabled)]

/-- A target tree. -/
def TargetTree.json (t : TargetTree) : Value :=
  .record [("entry_script", .text t.entryScript.text), ("root", .text t.root),
    ("targets", .list (t.targets.values.map Target.json)), ("reachable", Json.texts t.reachable),
    ("scripts", Json.paths t.scripts), ("warnings", Json.warnings t.warnings)]

end SolutionGraph
