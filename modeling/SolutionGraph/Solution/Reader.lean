import SolutionGraph.Solution.Dialect
import SolutionGraph.Solution.Link
import SolutionGraph.Solution.Listing

/-!
# Reading solutions

A solution is read by taking in its file (`Builder.checkHeader`, `Builder.problem`), the descriptors that it lists
(`Builder.readEntry`), and the references between them (`Builder.link`); what is kept may depend on the roots
(`Builder.rootSet`). At each of these places a strict reading ends with the first thing that is wrong, and a lenient one
goes on and keeps a warning. Some errors end both: a file that cannot be read, or an id that is there twice.
-/

namespace SolutionGraph

namespace Solution

/-- What is asked of a reading. -/
structure Options where
  /-- The solution file, as given. -/
  solutionPath : Path
  /-- The directory that a relative path is seen from; the working directory if it is empty. -/
  basePath : Path
  /-- Whether only projects that are reached from the roots are kept. -/
  referencedOnly : Bool
  /-- Whether the first thing that is wrong ends the reading. -/
  strict : Bool
  /-- The version of the tools. -/
  toolVersion : Text
  /-- The roots, if they are given. -/
  roots : List ProjectId
  /-- How paths of descriptors are compared. -/
  policy : CasePolicy
  /-- The toolchain's directories. -/
  systemIncludeDirs : List Path

/-! ## Stages -/

/-- Checks the version of the format. -/
def Builder.checkFormat (b : Builder) (l : Listing) (dialect : Dialect) : Reading Unit :=
  match l.formatVersion with
  | none => b.problem ⟨1, .missingHeader⟩
  | some found => if found = dialect.formatVersion then pure () else b.problem ⟨1, .formatMismatch found dialect.text⟩

/-- Checks whether the dialect has the line of the environment's version. -/
def Builder.checkEnvironment (b : Builder) (l : Listing) (dialect : Dialect) : Reading Unit :=
  match l.environmentLine with
  | some line =>
    if dialect.hasEnvironmentVersion then pure ()
    else warn (.parse b.path
      ("line " ++ Text.ofNat line ++ ": VisualStudioVersion is not part of the " ++ dialect.text ++ " dialect"))
  | none => pure ()

/-- Checks the header. -/
def Builder.checkHeader (b : Builder) (l : Listing) (dialect : Dialect) : Reading Unit := do
  b.checkFormat l dialect
  b.checkEnvironment l dialect

/-- The first entry whose id an earlier one has, with the name of the last such earlier one. -/
def duplicate? (earlier : List Entry) : List Entry → Option SolutionError
  | [] => none
  | e :: rest =>
    match earlier.find? fun before => before.id == e.id with
    | some before => some (.duplicateProject e.id before.name e.name)
    | none => duplicate? (e :: earlier) rest

/-- Ends the reading if an id is there twice. -/
def checkDuplicates (l : Listing) : Reading Unit :=
  match duplicate? [] l.entries with
  | some e => throw e
  | none => pure ()

/-- Whether a path is that of a project descriptor. -/
def isDescriptor (path : Path) : Bool :=
  match path.extension? with
  | some extension => Text.eqIgnoringCase extension "vcxproj"
  | none => false

/-- A project with the dependencies that the solution states. -/
def withDependencies (p : Project) (dependencies : List ProjectId) : Project :=
  { p with references := dependencies.foldl insertNew p.references }

/-- Takes in one entry. -/
def Builder.readEntry (b : Builder) (tree : FileTree) (options : Project.Options) (dir : Path) (read : Linked) (e : Entry) :
    Reading Linked :=
  if e.isFolder then pure read
  else
    let descriptor := Path.absolutize dir e.path
    if isDescriptor descriptor then
      match Project.parse tree options descriptor e.id e.name with
      | .ok parsed => do
        modify fun warnings => warnings ++ parsed.warnings
        return read.insert e.id (withDependencies parsed.project e.dependencies, parsed.unresolvedReferencePaths)
      | .error cause => do
        b.reject (.project e.name cause) (.parse descriptor cause.message)
        return read
    else do
      warn (.parse descriptor ("skipping '" ++ e.name ++ "': not a C++ project"))
      return read

/-- Takes in a root that is given. -/
def Builder.keepRoot (b : Builder) (projects : OrderedMap ProjectId Project) (kept : List ProjectId) (root : ProjectId) :
    Reading (List ProjectId) :=
  if projects.contains root then pure (kept ++ [root])
  else do
    b.reject (.unknownRoot root) (.unknownRoot root.text)
    return kept

/-- The roots of the kept projects: the given ones, or else those that are built in some configuration, or else all. -/
def Builder.rootSet (b : Builder) (l : Listing) (given : List ProjectId) (projects : OrderedMap ProjectId Project) :
    Reading (List ProjectId) :=
  if given.isEmpty then
    let built := projects.keys.filter fun id => l.built.contains id
    pure (if built.isEmpty then projects.keys else built)
  else given.foldlM (b.keepRoot projects) []

/-- The projects that are kept. -/
def Builder.keep (b : Builder) (options : Options) (l : Listing) (linked : OrderedMap ProjectId Project) :
    Reading (OrderedMap ProjectId Project) :=
  if options.referencedOnly then do
    let roots ← b.rootSet l options.roots linked
    return retainReached linked roots
  else pure linked

/-- The active configurations of the projects that are there. -/
def configurationMappings (l : Listing) (projects : OrderedMap ProjectId Project) :
    OrderedMap ProjectId (OrderedMap ConfigurationName ConfigurationName) :=
  (l.active.filter fun a => projects.contains a.project).foldl
    (fun mappings a => mappings.modify a.project .empty fun names => names.insert a.ofSolution a.ofProject) .empty

/-- The path of the solution file. -/
def solutionFile (tree : FileTree) (options : Options) : Path :=
  if options.solutionPath.isAbsolute then options.solutionPath.normalize
  else
    let base := if options.basePath.text.isEmpty then tree.workingPath else options.basePath
    Path.absolutize base options.solutionPath.text

/-- Builds the solution that a file lists. -/
def Builder.build (b : Builder) (tree : FileTree) (options : Options) (dialect : Dialect) (l : Listing) :
    Reading Solution := do
  b.checkHeader l dialect
  l.problems.forM b.problem
  checkDuplicates l
  let dir := b.path.parent?.getD ⟨[]⟩
  let read ← l.entries.foldlM (b.readEntry tree ⟨some dir, options.systemIncludeDirs⟩ dir) .empty
  let linked ← b.link options.policy read
  let kept ← b.keep options l linked
  let projects := inheritPublicDirs kept
  let warnings ← get
  return {
    path := b.path
    projects
    configurations := l.configurations
    projectConfigurations := configurationMappings l projects
    warnings }

/-- Reads a solution file and all projects that it lists. -/
def parse (tree : FileTree) (options : Options) : Except SolutionError Solution :=
  match Dialect.ofToolVersion? options.toolVersion with
  | none => .error (.unsupportedToolVersion options.toolVersion)
  | some dialect =>
    let path := solutionFile tree options
    if tree.isFile path then
      match tree.readText path with
      | .error cause => .error (.disk path cause)
      | .ok text => (Builder.build ⟨path, options.strict⟩ tree options dialect (Listing.read text)).run' []
    else .error (.notFound path)

end Solution

end SolutionGraph
