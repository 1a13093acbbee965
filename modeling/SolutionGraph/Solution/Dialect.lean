import SolutionGraph.Text.Basic

/-!
# Dialects of solution files

The version of the tools decides the format version that a solution file states in its header.
-/

namespace SolutionGraph.Solution

/-- The layout of a solution file's header. -/
inductive Dialect where
  | format10
  | format11
  | format12
  deriving DecidableEq, Repr

namespace Dialect

/-- The dialect of a version of the tools such as `14.0`: its first number decides. -/
def ofToolVersion? (version : Text) : Option Dialect :=
  match (Text.splitOn '.' (Text.trim version)).head?.bind (Text.number? 4294967296) with
  | some major =>
    if major = 9 then some .format10
    else if major = 10 then some .format11
    else if 11 ≤ major then some .format12
    else none
  | none => none

/-- The format version in the header. -/
def formatVersion : Dialect → Text
  | .format10 => "10.00"
  | .format11 => "11.00"
  | .format12 => "12.00"

/-- Whether the header has a line with the version of the development environment. -/
def hasEnvironmentVersion (d : Dialect) : Bool := d = .format12

/-- How a dialect is called. -/
def text (d : Dialect) : Text := "format " ++ d.formatVersion

end Dialect

end SolutionGraph.Solution
