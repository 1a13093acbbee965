import SolutionGraph.CommandLine.Arguments

/-!
# Usage

What is shown when arguments are not understood, and when the usage or the version is asked for.
-/

namespace SolutionGraph.CommandLine

/-- The version of the program. -/
def versionText : Text := "vcxgraph 0.1.0\n"

/-- How the program is used. -/
def usageText : Text :=
  "usage: vcxgraph [OPTIONS] COMMAND\n\n" ++
  "commands:\n" ++
  "  projects SOLUTION [--referenced-only [--root GUID]...]\n" ++
  "  includes SOLUTION SOURCE --project PROJECT [--configuration NAME] [--sequential]\n" ++
  "  targets SCRIPT [--target NAME] [--search-path DIR]... [--property PROPERTIES]...\n" ++
  "          [--configuration NAME] [--platform NAME]\n" ++
  "  graph SOLUTION [--source SOURCE --project PROJECT] [--configuration NAME] [--output FILE]\n\n" ++
  "options:\n" ++
  "  --verbose, --strict, --tool-version VERSION, --case-insensitive, --exclude-dir DIR,\n" ++
  "  --system-include DIR, --format text|json, --help, --version\n"

/-- Whether the arguments ask for something to be shown, and are not at fault. -/
def UsageError.isRequest : UsageError → Bool
  | .helpRequested | .versionRequested => true
  | _ => false

/-- What is shown. -/
def UsageError.text : UsageError → Text
  | .nothingAsked | .helpRequested => usageText
  | .versionRequested => versionText
  | .commandMissing => "error: a command is required\n"
  | .unknownCommand => "error: unknown command\n"
  | .unknownArgument => "error: unknown argument\n"
  | .missingArgument => "error: a required argument is missing\n"
  | .invalidValue => "error: a value is missing or cannot be chosen\n"
  | .malformedValue => "error: a value cannot be read\n"
  | .unexpectedValue => "error: a flag has no value\n"
  | .repeatedArgument => "error: an argument is repeated\n"

end SolutionGraph.CommandLine
