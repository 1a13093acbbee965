import SolutionGraph.Configuration
import SolutionGraph.ProjectId
import SolutionGraph.Text.DecimalDigit

/-!
# Solution files

A solution file lists projects and configurations line by line. `Listing.read` takes in one line after the other; where it
stands among the blocks (`Place`) decides what a line means.

* outside blocks: the header, `Project(...)` lines and `Global`;
* inside a project: its sections, of which the one on dependencies is read;
* inside `Global`: its sections, of which those on configurations are read.

Lines that should mean something and do not are kept as problems (`Problem`).
-/

namespace SolutionGraph.Solution

/-- What is wrong with a line of a solution file. -/
inductive Fault where
  | malformedEntry
  | invalidId (raw : Text) (fault : IdFault)
  | invalidDependency (raw : Text)
  | malformedSectionEntry (line : Text)
  | unexpectedEnd
  | missingHeader
  | formatMismatch (found dialect : Text)
  deriving DecidableEq, Repr

/-- How a fault is reported. -/
def Fault.message : Fault → Text
  | .malformedEntry => "malformed project entry"
  | .invalidId raw fault => "invalid project id '" ++ raw ++ "': " ++ fault.message
  | .invalidDependency raw => "invalid project dependency '" ++ raw ++ "'"
  | .malformedSectionEntry line => "malformed section entry '" ++ line ++ "'"
  | .unexpectedEnd => "unexpected end of file inside a block"
  | .missingHeader => "missing solution file header"
  | .formatMismatch found dialect =>
    "format version " ++ found ++ " does not match the " ++ dialect ++ " dialect of the requested tool version"

/-- A fault and the line that it is on. -/
structure Problem where
  /-- The number of the line, from one. -/
  line : Nat
  /-- The fault. -/
  fault : Fault
  deriving DecidableEq, Repr

/-- A project that a solution file lists. -/
structure Entry where
  /-- The kind of the project, as a text. -/
  kind : Text
  /-- The name. -/
  name : Text
  /-- The path of the descriptor, as written. -/
  path : Text
  /-- The id. -/
  id : ProjectId
  /-- The projects that it has to be built after. -/
  dependencies : List ProjectId
  deriving DecidableEq

/-- The kind of the entries that group others and have no descriptor. -/
def folderKind : Text := "2150E333-8FDC-42A3-9474-1A3956D46DE8"

/-- Whether a character is a brace. -/
def isBrace (c : Char) : Bool := c = '\x7b' || c = '\x7d'

/-- Whether an entry groups others only. -/
def Entry.isFolder (e : Entry) : Bool :=
  Text.eqIgnoringCase ((e.kind.dropWhile isBrace).reverse.dropWhile isBrace).reverse folderKind

/-- The active configuration of a project in a configuration of the solution. -/
structure ActiveConfiguration where
  /-- The project. -/
  project : ProjectId
  /-- The configuration of the solution. -/
  ofSolution : ConfigurationName
  /-- The configuration of the project. -/
  ofProject : ConfigurationName

/-- What a solution file says. -/
structure Listing where
  /-- The format version of the header. -/
  formatVersion : Option Text
  /-- The line with the version of the development environment. -/
  environmentLine : Option Nat
  /-- The projects in order. -/
  entries : List Entry
  /-- The configurations of the solution, each once. -/
  configurations : List ConfigurationName
  /-- The projects that are built in some configuration. -/
  built : List ProjectId
  /-- The active configurations in order. -/
  active : List ActiveConfiguration
  /-- The problems in order. -/
  problems : List Problem

/-- The sections that are read, and all others. -/
inductive Section where
  | dependencies
  | solutionConfigurations
  | projectConfigurations
  | other
  deriving DecidableEq, Repr

/-- The section of a name. -/
def Section.ofName (name : Text) : Section :=
  let t := Text.trim name
  if t = "ProjectDependencies" then .dependencies
  else if t = "SolutionConfigurationPlatforms" then .solutionConfigurations
  else if t = "ProjectConfigurationPlatforms" then .projectConfigurations
  else .other

/-- Where a line stands among the blocks. A malformed project has no entry. -/
inductive Place where
  | top
  | project (entry : Option Entry)
  | projectSection (entry : Option Entry) (kind : Section)
  | global
  | globalSection (kind : Section)

/-! ## Lines -/

/-- The number at the start of a text: digits, a point and digits. -/
def readVersion (t : Text) : Option Text :=
  let whole := t.takeWhile Text.isDecimalDigit
  match t.dropWhile Text.isDecimalDigit with
  | '.' :: rest =>
    let part := rest.takeWhile Text.isDecimalDigit
    if whole.isEmpty || part.isEmpty then none else some (whole ++ '.' :: part)
  | _ => none

/-- The start of the header line. -/
def headerStart : Text := "Microsoft Visual Studio Solution File, Format Version "

/-- The format version of a header line. -/
def headerVersion? (line : Text) : Option Text := (Text.dropStart? headerStart line).bind readVersion

/-- Reads a text in double quotes. -/
def readQuoted : Text → Option (Text × Text)
  | '"' :: rest => Text.splitOnce '"' rest
  | _ => none

/-- Reads blanks, a separator and blanks. -/
def readSeparator (separator : Char) (t : Text) : Option Text :=
  match Text.trimStart t with
  | [] => none
  | c :: rest => if c = separator then some (Text.trimStart rest) else none

/-- The four texts of a project line. -/
structure EntryTexts where
  /-- The kind. -/
  kind : Text
  /-- The name. -/
  name : Text
  /-- The path. -/
  path : Text
  /-- The id. -/
  id : Text
  deriving DecidableEq, Repr

/-- Reads a line `Project("kind") = "name", "path", "id"`. -/
def entryTexts? (line : Text) : Option EntryTexts := do
  let (kind, afterKind) ← readQuoted (← Text.dropStart? "Project(" line)
  let (name, afterName) ← readQuoted (← readSeparator '=' (← Text.dropStart? ")" afterKind))
  let (path, afterPath) ← readQuoted (← readSeparator ',' afterName)
  let (id, rest) ← readQuoted (← readSeparator ',' afterPath)
  if Text.isAllBlank rest then some ⟨kind, name, path, id⟩ else none

/-- The entry of a project line, or its fault. -/
def readEntry (line : Text) : Except Fault Entry :=
  match entryTexts? line with
  | none => .error .malformedEntry
  | some texts =>
    match ProjectId.parse texts.id with
    | .ok id => .ok ⟨texts.kind, texts.name, texts.path, id, []⟩
    | .error fault => .error (.invalidId texts.id fault)

/-- The name of the section that a line opens. -/
def sectionName? (line : Text) : Option Text := do
  let rest ← (Text.dropStart? "ProjectSection(" line).or (Text.dropStart? "GlobalSection(" line)
  return (← Text.splitOnce ')' rest).1

/-- The rest of a text before a given end. -/
def dropEnd? (ending : Text) (t : Text) : Option Text :=
  (Text.dropStart? ending.reverse t.reverse).map List.reverse

/-! ## Taking in lines -/

namespace Listing

/-- A listing of nothing. -/
def empty : Listing := ⟨none, none, [], [], [], [], []⟩

/-- The listing with one more problem. -/
def report (l : Listing) (line : Nat) (fault : Fault) : Listing := { l with problems := l.problems ++ [⟨line, fault⟩] }

/-- Takes in a line outside blocks. -/
def atTop (l : Listing) (number : Nat) (line : Text) : Listing × Place :=
  match headerVersion? line with
  | some version => ({ l with formatVersion := some version }, .top)
  | none =>
    if "VisualStudioVersion".toList.isPrefixOf line then ({ l with environmentLine := some number }, .top)
    else if line = "Global" then (l, .global)
    else if "Project(".toList.isPrefixOf line then
      match readEntry line with
      | .ok entry => (l, .project (some entry))
      | .error fault => (l.report number fault, .project none)
    else (l, .top)

/-- Takes in a line of a project. -/
def inProject (l : Listing) (entry : Option Entry) (line : Text) : Listing × Place :=
  if line = "EndProject" then ({ l with entries := l.entries ++ entry.toList }, .top)
  else
    match sectionName? line with
    | some name => (l, .projectSection entry (.ofName name))
    | none => (l, .project entry)

/-- Takes in a line of a project's section. -/
def inProjectSection (l : Listing) (number : Nat) (entry : Option Entry) (kind : Section) (line : Text) :
    Listing × Place :=
  if line = "EndProjectSection" then (l, .project entry)
  else
    match kind, entry with
    | .dependencies, some e =>
      let key := match Text.splitOnce '=' line with
        | some (before, _) => before
        | none => line
      match ProjectId.parse? key with
      | some id => (l, .projectSection (some { e with dependencies := insertNew e.dependencies id }) kind)
      | none => (l.report number (.invalidDependency (Text.trim key)), .projectSection entry kind)
    | _, _ => (l, .projectSection entry kind)

/-- Takes in a line of the global block. -/
def inGlobal (l : Listing) (line : Text) : Listing × Place :=
  if line = "EndGlobal" then (l, .top)
  else
    match sectionName? line with
    | some name => (l, .globalSection (.ofName name))
    | none => (l, .global)

/-- The project that a key of the section on project configurations says to build. -/
def builtProject? (key : Text) : Option ProjectId :=
  if (dropEnd? ".Build.0" key).isSome then (Text.splitOnce '.' key).bind fun (raw, _) => ProjectId.parse? raw
  else none

/-- The project and the configuration of the solution that a key of that section gives an active configuration. -/
def activeKey? (key : Text) : Option (ProjectId × ConfigurationName) := do
  let (raw, name) ← Text.splitOnce '.' (← dropEnd? ".ActiveCfg" key)
  return (← ProjectId.parse? raw, .ofText name)

/-- Takes in an entry of a section of the global block. -/
def addGlobal (l : Listing) (kind : Section) (key value : Text) : Listing :=
  match kind with
  | .solutionConfigurations => { l with configurations := insertNew l.configurations (.ofText key) }
  | .projectConfigurations =>
    match builtProject? key, activeKey? key with
    | some id, _ => { l with built := insertNew l.built id }
    | none, some (id, name) => { l with active := l.active ++ [⟨id, name, .ofText value⟩] }
    | none, none => l
  | _ => l

/-- Takes in a line of a section of the global block. -/
def inGlobalSection (l : Listing) (number : Nat) (kind : Section) (line : Text) : Listing × Place :=
  if line = "EndGlobalSection" then (l, .global)
  else
    match Text.splitOnce '=' line with
    | some (key, value) => (l.addGlobal kind (Text.trim key) value, .globalSection kind)
    | none => (l.report number (.malformedSectionEntry line), .globalSection kind)

/-- Takes in one line that is not blank. -/
def takeLine (l : Listing) (place : Place) (number : Nat) (line : Text) : Listing × Place :=
  match place with
  | .top => l.atTop number line
  | .project entry => l.inProject entry line
  | .projectSection entry kind => l.inProjectSection number entry kind line
  | .global => l.inGlobal line
  | .globalSection kind => l.inGlobalSection number kind line

/-- Whether a line says nothing where it stands: a blank one, or a comment outside blocks. -/
def isIdle (place : Place) (line : Text) : Bool :=
  line.isEmpty ||
    match place with
    | .top => line.head? == some '#'
    | _ => false

/-- Takes in the lines that are numbered from `number` on. -/
def takeLines (l : Listing) (place : Place) (number : Nat) : List Text → Listing × Place
  | [] => (l, place)
  | raw :: rest =>
    let line := Text.trim raw
    if isIdle place line then takeLines l place (number + 1) rest
    else
      let (l', place') := l.takeLine place number line
      takeLines l' place' (number + 1) rest

/-- Reads a solution file. -/
def read (source : Text) : Listing :=
  let (l, place) := empty.takeLines .top 1 (Text.lines (source.dropWhile (· = Char.ofNat 0xFEFF)))
  match place with
  | .top => l
  | _ => l.report (Text.lines source).length .unexpectedEnd

end Listing

end SolutionGraph.Solution
