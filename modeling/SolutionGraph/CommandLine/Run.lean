import SolutionGraph.CommandLine.Invocation
import SolutionGraph.CommandLine.Listing
import SolutionGraph.Dgml.Include
import SolutionGraph.Dgml.Solution
import SolutionGraph.FileTree.Write
import SolutionGraph.Include.SourceGraph
import SolutionGraph.Json.Report
import SolutionGraph.Solution.Reader

/-!
# Running an invocation

`Invocation.analyse` does what an invocation asks for, and gives the text of the result and where it goes. `Invocation.run`
also delivers it: to a file, or to standard output, which may fail. A reader of the output that goes away early is no
failure.
-/

namespace SolutionGraph.CommandLine

/-! ## Failures -/

/-- What fails when a result is delivered. -/
inductive DeliveryStep where
  | createDirectory (path : Path)
  | writeFile (path : Path)
  | writeOutput
  | flushOutput
  deriving DecidableEq, Repr

/-- How a step is called. -/
def DeliveryStep.text : DeliveryStep → Text
  | .createDirectory path => "create directory " ++ path.text
  | .writeFile path => "write " ++ path.text
  | .writeOutput => "write to standard output"
  | .flushOutput => "flush standard output"

/-- Why an invocation fails. -/
inductive RunError where
  | solution (cause : SolutionError)
  | includes (cause : IncludeError)
  | targets (cause : TargetError)
  | projectNotFound (project : Text) (solution : Path)
  | delivery (step : DeliveryStep) (cause : Text)

namespace RunError

/-- The code of an error; a delivery that fails has none. -/
def code? : RunError → Option Text
  | .solution cause => some cause.code
  | .includes cause => some cause.code
  | .targets cause => some cause.code
  | .projectNotFound _ _ => some "vcxgraph::runner::project_not_found"
  | .delivery _ _ => none

/-- What went wrong, and then what lies behind it. -/
def messages : RunError → List Text
  | .solution cause => cause.message :: cause.causes
  | .includes cause => [cause.message]
  | .targets cause => cause.message :: cause.causes
  | .projectNotFound wanted path => ["no project '" ++ wanted ++ "' in " ++ path.text]
  | .delivery step cause => [step.text, cause]

/-- What the user may do about an error. -/
def help? : RunError → Option Text
  | .solution cause => cause.help?
  | .includes cause => cause.help?
  | .targets cause => cause.help?
  | .projectNotFound _ _ => some "run `vcxgraph projects` to list project names and GUIDs"
  | .delivery _ _ => none

/-- An error as it is shown: its code, what went wrong and why, and what to do. -/
def text (e : RunError) : Text :=
  let help : Text := match e.help? with
    | some advice => "\n  help: " ++ advice
    | none => []
  Text.join ": " (e.code?.toList ++ e.messages) ++ help

end RunError

/-! ## Analyses -/

/-- A result, and where it goes. -/
inductive Product where
  | output (content : Text)
  | file (path : Path) (content : Text)

/-- How a solution is read, if all its projects are wanted. -/
def Invocation.solutionOptions (i : Invocation) (solution : Path) : Solution.Options :=
  { solutionPath := solution
    basePath := ⟨[]⟩
    referencedOnly := false
    strict := i.strict
    toolVersion := i.toolVersion
    roots := []
    policy := i.policy
    systemIncludeDirs := i.systemIncludeDirs }

/-- Reads a solution. -/
def readSolution (tree : FileTree) (options : Solution.Options) : Except RunError Solution :=
  (Solution.parse tree options).mapError .solution

/-- The project of an id or, if the text is none, of a name. -/
def selectProject (s : Solution) (wanted : Text) : Except RunError Project :=
  match ((ProjectId.parse? wanted).bind s.project?).or (s.projectByName? wanted) with
  | some p => .ok p
  | none => .error (.projectNotFound wanted s.path)

/-- The configuration of a project to look at: that which a configuration of the solution builds, or else the requested
one as it is, or, without a request, the default one. -/
def selectConfiguration (s : Solution) (p : Project) (requested : Option Text) : Text :=
  match requested with
  | some name =>
    match s.projectConfiguration? p.id (.ofText name) with
    | some mapped => mapped.text
    | none => name
  | none =>
    match p.defaultConfiguration with
    | some default => default.text
    | none => []

/-- The include graph of a source file of a project of a solution. -/
def Invocation.sourceGraph (i : Invocation) (tree : FileTree) (s : Solution) (project : Text) (source : Path)
    (configuration : Option Text) : Except RunError Include.Graph := do
  let p ← selectProject s project
  let (graph, _) := p.includeGraph tree ⟨i.policy, i.excludedDirs⟩ none source (selectConfiguration s p configuration)
  graph.mapError .includes

/-- A result in the format that is asked for. -/
def Invocation.report (i : Invocation) (body : Text) (warnings : List Warning) (json : Json.Value) : Product :=
  match i.format with
  | .text => .output (withWarnings body warnings)
  | .json => .output json.document

/-- Whether a path stands for standard output. -/
def isStandardOutput (p : Path) : Bool := p.text == "-"

/-- Does what is asked for. -/
def Invocation.analyse (i : Invocation) (tree : FileTree) : Except RunError Product :=
  match i.command with
  | .projects solution referencedOnly roots => do
    let s ← readSolution tree { i.solutionOptions solution with referencedOnly, roots }
    return i.report s.listing s.warnings s.json
  | .includes solution project source configuration => do
    let s ← readSolution tree (i.solutionOptions solution)
    let graph ← i.sourceGraph tree s project source configuration
    return i.report graph.text graph.warnings graph.json
  | .targets script target searchPaths properties configuration platform => do
    let overrides ← (Target.parseOverrides (Text.join ";" properties)).mapError .targets
    let built ← (Target.buildTree tree
      { entryScript := script
        rootTarget := target.getD []
        searchPaths
        overrides
        platform
        configuration
        strictImports := i.strict
        toolVersion := i.toolVersion }).mapError .targets
    return i.report built.display built.warnings built.json
  | .graph solution source configuration output => do
    let s ← readSolution tree (i.solutionOptions solution)
    let document ← match source with
      | some (project, file) => do
        let graph ← i.sourceGraph tree s project file configuration
        pure graph.document
      | none => pure s.dependencyGraph
    return if isStandardOutput output then .output document.text else .file output document.text

/-! ## Delivery -/

/-- Why standard output takes nothing. -/
inductive SinkFault where
  /-- Nobody reads it any more. -/
  | closed
  /-- Something else. -/
  | other (cause : Text)

/-- Standard output, and how it fails. -/
structure Sink where
  /-- What happens to text that is written. -/
  write : Option SinkFault
  /-- What happens when it is flushed. -/
  flush : Option SinkFault

/-- A sink that takes everything. -/
def Sink.sound : Sink := ⟨none, none⟩

/-- Whether a step on a sink fails. -/
def SinkFault.check (step : DeliveryStep) : Option SinkFault → Except RunError Unit
  | some (.other cause) => .error (.delivery step cause)
  | _ => .ok ()

/-- Writes a text to a sink, and gives what arrives. An empty text is not written at all. -/
def Sink.emit (sink : Sink) (content : Text) : Except RunError Text := do
  if !content.isEmpty then SinkFault.check .writeOutput sink.write
  SinkFault.check .flushOutput sink.flush
  return if sink.write.isSome then [] else content

/-- Writes a text to a file, and makes the directories that it needs. -/
def writeResult (tree : FileTree) (path : Path) (content : Text) : Except RunError FileTree := do
  let ready ← match path.parent? with
    | some dir =>
      if dir.text.isEmpty then pure tree
      else (tree.createDirs dir).mapError fun cause => .delivery (.createDirectory dir) cause.message
    | none => pure tree
  (ready.writeFile path (Text.encode content)).mapError fun cause => .delivery (.writeFile path) cause.message

/-- Does what is asked for and delivers it; gives the files after that and what arrives on standard output. -/
def Invocation.run (i : Invocation) (tree : FileTree) (sink : Sink) : Except RunError (FileTree × Text) := do
  match ← i.analyse tree with
  | .output content => return (tree, ← sink.emit content)
  | .file path content => return (← writeResult tree path content, [])

end SolutionGraph.CommandLine
