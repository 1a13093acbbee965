import SolutionGraph.Text.Basic

/-!
# Arguments

Arguments are read word by word against the options of a scope. An option is written `--name value`, `--name=value`,
`-n value` or `-nvalue`; letters of flags may be joined; `--` ends the options. The value of an option is looked at when
the next option or positional argument comes, or at the end of the scope.

* **`Scope`**: which options, positional arguments and commands there are;
* **`Scope.read`**: reads the words up to a command, or to the end.
-/

namespace SolutionGraph.CommandLine

/-- Why arguments are not understood, or what they ask for instead of an analysis. -/
inductive UsageError where
  /-- Nothing is asked for. -/
  | nothingAsked
  /-- There are options and no command. -/
  | commandMissing
  /-- There is no such command. -/
  | unknownCommand
  /-- There is no such option, or there are too many positional arguments. -/
  | unknownArgument
  /-- Something that is required is not there. -/
  | missingArgument
  /-- A value is missing, or is none of those that can be chosen. -/
  | invalidValue
  /-- A value cannot be read. -/
  | malformedValue
  /-- A flag has a value. -/
  | unexpectedValue
  /-- An option that may be given once is repeated. -/
  | repeatedArgument
  /-- The usage is asked for. -/
  | helpRequested
  /-- The version is asked for. -/
  | versionRequested
  deriving DecidableEq, Repr

section Options

variable {ω : Type}

/-- What an option does. -/
inductive OptionKind where
  /-- Asks for the usage. -/
  | help
  /-- Asks for the version. -/
  | version
  /-- Is there or not. -/
  | flag
  /-- Has a value, which is checked. -/
  | value (repeatable : Bool) (check : Text → Option UsageError)

/-- Whether an option has a value. -/
def OptionKind.hasValue : OptionKind → Bool
  | .value _ _ => true
  | _ => false

/-- An option that may be written by a long name and by a letter. -/
structure OptionSpec (ω : Type) where
  /-- What the option is known by. -/
  name : ω
  /-- The long name. -/
  long : Text
  /-- The letter, if it has one. -/
  short : Option Char
  /-- What it does. -/
  kind : OptionKind

/-- What may be written at some place of a command line. -/
structure Scope (ω : Type) where
  /-- The options. -/
  options : List (OptionSpec ω)
  /-- How many positional arguments there are. -/
  positionals : Nat
  /-- The commands. -/
  commands : List Text

/-- The option of a long name. -/
def Scope.named? (scope : Scope ω) (long : Text) : Option (OptionSpec ω) := scope.options.find? fun o => o.long == long

/-- The option of a letter. -/
def Scope.lettered? (scope : Scope ω) (letter : Char) : Option (OptionSpec ω) :=
  scope.options.find? fun o => o.short == some letter

/-! ## Words -/

/-- What a word looks like. -/
inductive Word where
  /-- Two dashes, which end the options. -/
  | escape
  /-- A long name, with the value behind an equals sign. -/
  | long (name : Text) (value : Option Text)
  /-- Letters of options, perhaps with a value behind them. -/
  | letters (letters : Text)
  /-- Anything else. -/
  | plain

/-- What a text looks like. -/
def Word.ofText : Text → Word
  | ['-', '-'] => .escape
  | '-' :: '-' :: rest =>
    match Text.splitOnce '=' rest with
    | some (name, value) => .long name (some value)
    | none => .long rest none
  | '-' :: c :: rest => .letters (c :: rest)
  | _ => .plain

/-! ## What is given -/

/-- Options and positional arguments in the order in which they came. -/
structure Given (ω : Type) where
  /-- The options with their values; the value of a flag is empty. -/
  options : List (ω × Text)
  /-- The positional arguments. -/
  positionals : List Text

/-- Arguments that are being read. -/
structure Intake (ω : Type) where
  /-- What has been looked at. -/
  given : Given ω
  /-- The option whose value is still to be looked at, or still to come. -/
  pending : Option (OptionSpec ω × Option Text)

/-- Nothing is read yet. -/
def Intake.start : Intake ω := ⟨⟨[], []⟩, none⟩

/-- Whether a value has to come next. -/
def Intake.isWaiting (s : Intake ω) : Bool :=
  match s.pending with
  | some (_, none) => true
  | _ => false

section Reading

variable [BEq ω]

/-- The values of an option. -/
def Given.values (g : Given ω) (name : ω) : List Text := (g.options.filter fun o => o.1 == name).map Prod.snd

/-- Whether an option is given. -/
def Given.has (g : Given ω) (name : ω) : Bool := g.options.any fun o => o.1 == name

/-- Takes an option with its value, or a flag. -/
def Given.take (g : Given ω) (spec : OptionSpec ω) (value : Text) : Except UsageError (Given ω) :=
  let taken : Given ω := { g with options := g.options ++ [(spec.name, value)] }
  match spec.kind with
  | .help => .error .helpRequested
  | .version => .error .versionRequested
  | .flag => if g.has spec.name then .error .repeatedArgument else .ok taken
  | .value repeatable check =>
    if !repeatable && g.has spec.name then .error .repeatedArgument
    else
      match check value with
      | some problem => .error problem
      | none => .ok taken

/-- Looks at the option that is still to be looked at. -/
def Intake.settle (s : Intake ω) : Except UsageError (Given ω) :=
  match s.pending with
  | none => .ok s.given
  | some (_, none) => .error .invalidValue
  | some (spec, some value) => s.given.take spec value

/-- Settles what came before, and takes an option with its value, or a flag. -/
def Intake.take (s : Intake ω) (spec : OptionSpec ω) (value : Text) : Except UsageError (Intake ω) := do
  let g ← s.settle
  return ⟨← g.take spec value, none⟩

/-- Settles what came before, and waits for the value of an option. -/
def Intake.await (s : Intake ω) (spec : OptionSpec ω) : Except UsageError (Intake ω) := do
  return ⟨← s.settle, some (spec, none)⟩

/-! ## Reading -/

/-- Reads a long name. -/
def Scope.readLong (scope : Scope ω) (s : Intake ω) (name : Text) (value : Option Text) :
    Except UsageError (Intake ω) :=
  match scope.named? name with
  | none => .error .unknownArgument
  | some spec =>
    match spec.kind.hasValue, value with
    | true, some v => s.take spec v
    | true, none => s.await spec
    | false, some _ => .error .unexpectedValue
    | false, none => s.take spec []

/-- The value that follows the letter of an option. -/
def attachedValue : Text → Text
  | '=' :: value => value
  | value => value

/-- Reads the letters of options; what follows the letter of an option with a value is the value. -/
def Scope.readLetters (scope : Scope ω) (s : Intake ω) : Text → Except UsageError (Intake ω)
  | [] => .ok s
  | letter :: rest =>
    match scope.lettered? letter with
    | none => .error .unknownArgument
    | some spec =>
      if spec.kind.hasValue then
        if rest.isEmpty then s.await spec else s.take spec (attachedValue rest)
      else do
        let next ← s.take spec []
        scope.readLetters next rest

/-- Why a positional argument is too many. -/
def Scope.surplus (scope : Scope ω) (afterEscape : Bool) (arg : Text) : UsageError :=
  if scope.commands.isEmpty || (afterEscape && scope.commands.contains arg) then .unknownArgument else .unknownCommand

/-- Reads a positional argument. -/
def Scope.readPositional (scope : Scope ω) (afterEscape : Bool) (s : Intake ω) (arg : Text) :
    Except UsageError (Intake ω) :=
  if s.given.positionals.length < scope.positionals then do
    let g ← s.settle
    return ⟨{ g with positionals := g.positionals ++ [arg] }, none⟩
  else .error (scope.surplus afterEscape arg)

/-- Reads words up to the first command, and gives the command and the words behind it. -/
def Scope.read (scope : Scope ω) (s : Intake ω) : List Text → Except UsageError (Intake ω × Option (Text × List Text))
  | [] => .ok (s, none)
  | arg :: rest =>
    if !s.isWaiting && scope.commands.contains arg then .ok (s, some (arg, rest))
    else
      match Word.ofText arg with
      | .escape => do return (← rest.foldlM (scope.readPositional true) s, none)
      | .long name value => do scope.read (← scope.readLong s name value) rest
      | .letters letters => do scope.read (← scope.readLetters s letters) rest
      | .plain =>
        match s.pending with
        | some (spec, none) => scope.read { s with pending := some (spec, some arg) } rest
        | _ => do scope.read (← scope.readPositional false s arg) rest

end Reading

end Options

end SolutionGraph.CommandLine
