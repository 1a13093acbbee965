import SolutionGraph.CommandLine.Arguments
import SolutionGraph.Path.Normal
import SolutionGraph.ProjectId

/-!
# Invocations

An invocation is a command with its arguments and the options that all commands share. The shared options may stand before
the command and behind it; where one is given at both places, the later place counts.
-/

namespace SolutionGraph.CommandLine

/-- How a result is written. -/
inductive Format where
  | text
  | json
  deriving DecidableEq, Repr

/-- What the program is asked to do. -/
inductive Command where
  /-- List the projects of a solution. -/
  | projects (solution : Path) (referencedOnly : Bool) (roots : List ProjectId)
  /-- Show what a source file of a project includes. -/
  | includes (solution : Path) (project : Text) (source : Path) (configuration : Option Text)
  /-- Show the targets that a build script runs. -/
  | targets (script : Path) (target : Option Text) (searchPaths : List Path) (properties : List Text)
      (configuration platform : Option Text)
  /-- Write the graph of a solution, or that of a source file of a project. -/
  | graph (solution : Path) (source : Option (Text × Path)) (configuration : Option Text) (output : Path)

/-- A command and the options that all commands share. -/
structure Invocation where
  /-- Whether to tell what is going on. -/
  verbose : Bool
  /-- Whether what is malformed stops the analysis. -/
  strict : Bool
  /-- The version of the build tool. -/
  toolVersion : Text
  /-- How names of files are compared. -/
  policy : CasePolicy
  /-- The directories whose headers are not read. -/
  excludedDirs : List Path
  /-- The directories of the toolchain. -/
  systemIncludeDirs : List Path
  /-- How the result is written. -/
  format : Format
  /-- What to do. -/
  command : Command

/-! ## Options -/

/-- The options of the program. -/
inductive OptionName where
  | help | version | verbose | strict | toolVersion | caseInsensitive | excludeDir | systemInclude | format
  | referencedOnly | root | project | configuration | sequential | target | searchPath | property | platform
  | source | output
  deriving DecidableEq, Repr

/-- The format of a name. -/
def Format.ofText? (t : Text) : Option Format :=
  if t = "text" then some .text else if t = "json" then some .json else none

/-- A value that may be any text. -/
def anyText (_ : Text) : Option UsageError := none

/-- A value that is the name of a format. -/
def formatName (t : Text) : Option UsageError := if (Format.ofText? t).isSome then none else some .invalidValue

/-- A value that is the id of a project. -/
def projectId (t : Text) : Option UsageError := if (ProjectId.parse? t).isSome then none else some .malformedValue

/-- A flag. -/
def flag (name : OptionName) (long : Text) (short : Option Char) : OptionSpec OptionName := ⟨name, long, short, .flag⟩

/-- An option with a value, given once. -/
def single (name : OptionName) (long : Text) (short : Option Char) : OptionSpec OptionName :=
  ⟨name, long, short, .value false anyText⟩

/-- An option with a value, given any number of times. -/
def repeated (name : OptionName) (long : Text) (short : Option Char) : OptionSpec OptionName :=
  ⟨name, long, short, .value true anyText⟩

/-- The options that all commands share. -/
def sharedOptions : List (OptionSpec OptionName) :=
  [⟨.help, "help", some 'h', .help⟩, flag .verbose "verbose" (some 'v'), flag .strict "strict" none,
    single .toolVersion "tool-version" none, flag .caseInsensitive "case-insensitive" none,
    repeated .excludeDir "exclude-dir" none, repeated .systemInclude "system-include" none,
    ⟨.format, "format", none, .value false formatName⟩]

/-- The names of the commands. -/
inductive CommandName where
  | projects
  | includes
  | targets
  | graph
  deriving DecidableEq, Repr

/-- The command of a name. -/
def CommandName.ofText? (t : Text) : Option CommandName :=
  if t = "projects" then some .projects
  else if t = "includes" then some .includes
  else if t = "targets" then some .targets
  else if t = "graph" then some .graph
  else none

/-- The options of a command alone. -/
def CommandName.options : CommandName → List (OptionSpec OptionName)
  | .projects =>
    [flag .referencedOnly "referenced-only" none, ⟨.root, "root", none, .value true projectId⟩]
  | .includes =>
    [single .project "project" (some 'p'), single .configuration "configuration" (some 'c'),
      flag .sequential "sequential" none]
  | .targets =>
    [single .target "target" (some 't'), repeated .searchPath "search-path" none,
      repeated .property "property" (some 'p'), single .configuration "configuration" (some 'c'),
      single .platform "platform" none]
  | .graph =>
    [single .source "source" none, single .project "project" (some 'p'),
      single .configuration "configuration" (some 'c'), single .output "output" (some 'o')]

/-- What may be written behind a command. -/
def CommandName.scope (name : CommandName) : Scope OptionName :=
  ⟨sharedOptions ++ name.options, if name = .includes then 2 else 1, []⟩

/-- What may be written before a command. -/
def topScope : Scope OptionName :=
  ⟨sharedOptions ++ [⟨.version, "version", some 'V', .version⟩], 0, ["projects", "includes", "targets", "graph", "help"]⟩

/-! ## Reading -/

/-- The only value of an option. -/
def only? (g : Given OptionName) (name : OptionName) : Option Text := (g.values name).head?

/-- What a command asks for, if everything that it requires is there. -/
def CommandName.command? (name : CommandName) (g : Given OptionName) : Option Command :=
  match name, g.positionals with
  | .projects, [solution] =>
    if g.has .root && !g.has .referencedOnly then none
    else some (.projects ⟨solution⟩ (g.has .referencedOnly) ((g.values .root).filterMap ProjectId.parse?))
  | .includes, [solution, source] => do
    return .includes ⟨solution⟩ (← only? g .project) ⟨source⟩ (only? g .configuration)
  | .targets, [script] =>
    some (.targets ⟨script⟩ (only? g .target) ((g.values .searchPath).map Path.mk) (g.values .property)
      (only? g .configuration) (only? g .platform))
  | .graph, [solution] =>
    let output : Path := ⟨(only? g .output).getD "-"⟩
    match only? g .source, only? g .project with
    | none, _ => some (.graph ⟨solution⟩ none (only? g .configuration) output)
    | some source, some project => some (.graph ⟨solution⟩ (some (project, ⟨source⟩)) (only? g .configuration) output)
    | some _, none => none
  | _, _ => none

/-- Reads the arguments of a command. -/
def CommandName.read (name : CommandName) (args : List Text) : Except UsageError (Given OptionName × Command) := do
  let (intake, _) ← name.scope.read .start args
  let g ← intake.settle
  match name.command? g with
  | some command => return (g, command)
  | none => throw .missingArgument

/-- What a request for help comes to. -/
def helpFor : List Text → UsageError
  | [] => .helpRequested
  | [name] => if topScope.commands.contains name then .helpRequested else .unknownCommand
  | _ => .unknownCommand

/-- The values of a shared option: those behind the command, or else those before it. -/
def sharedValues (before behind : Given OptionName) (name : OptionName) : List Text :=
  if behind.has name then behind.values name else before.values name

/-- The version of the build tool if nothing is said about it. -/
def standardToolVersion : Text := "14.0"

/-- A command with the shared options of both places. -/
def Invocation.ofGiven (before behind : Given OptionName) (command : Command) : Invocation :=
  let values := sharedValues before behind
  let isOn (name : OptionName) : Bool := !(values name).isEmpty
  { verbose := isOn .verbose
    strict := isOn .strict
    toolVersion := (values .toolVersion).head?.getD standardToolVersion
    policy := if isOn .caseInsensitive then .insensitive else .sensitive
    excludedDirs := (values .excludeDir).map Path.mk
    systemIncludeDirs := (values .systemInclude).map Path.mk
    format := ((values .format).head?.bind Format.ofText?).getD .text
    command }

/-- Reads the arguments of the program. -/
def Invocation.parse (args : List Text) : Except UsageError Invocation := do
  let (intake, next) ← topScope.read .start args
  match next with
  | none =>
    let g ← intake.settle
    throw (if g.options.isEmpty then .nothingAsked else .commandMissing)
  | some (word, rest) =>
    match CommandName.ofText? word with
    | none => throw (helpFor rest)
    | some name =>
      let (behind, command) ← name.read rest
      return .ofGiven (← intake.settle) behind command

end SolutionGraph.CommandLine
