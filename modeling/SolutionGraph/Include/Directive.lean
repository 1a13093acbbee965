import SolutionGraph.Include.Conditional
import SolutionGraph.Include.LogicalLine

/-!
# Include directives

`scanDirectives` gives the include directives of a source text that are active, in order. A directive names its file in
quotes or in angle brackets; anything else after `#include` is computed, and is kept as written.
-/

namespace SolutionGraph.Include

/-- How a directive names its file. -/
inductive Style where
  /-- In quotes: the directory of the including file is searched first. -/
  | quoted
  /-- In angle brackets: only the search path is searched. -/
  | angled
  /-- By an expression that only a preprocessor can evaluate. -/
  | computed
  deriving DecidableEq, Repr

/-- How a style is called. -/
def Style.text : Style → Text
  | .quoted => "quoted"
  | .angled => "angled"
  | .computed => "computed"

/-- An active include directive. -/
structure Directive where
  /-- The number of the line that it starts on. -/
  line : Nat
  /-- The name as written, without delimiters and blanks around it. -/
  name : Text
  /-- How the file is named. -/
  style : Style
  deriving DecidableEq, Repr

/-- A preprocessor line: its keyword and the rest of it. -/
structure PreprocessorLine where
  /-- The keyword after the hash. -/
  keyword : Text
  /-- The rest, without blanks around it. -/
  rest : Text
  deriving DecidableEq, Repr

/-- The characters of a keyword. -/
def isKeywordChar (c : Char) : Bool := ('a' ≤ c && c ≤ 'z') || ('A' ≤ c && c ≤ 'Z') || c = '_'

/-- The preprocessor line that a logical line is, if it is one. -/
def preprocessorLine? (line : Text) : Option PreprocessorLine :=
  match Text.trimStart line with
  | '#' :: rest =>
    let body := Text.trimStart rest
    let keyword := body.takeWhile isKeywordChar
    if keyword.isEmpty then none else some ⟨keyword, Text.trim (body.dropWhile isKeywordChar)⟩
  | _ => none

/-- What stands between an opening delimiter and the next closing one, if it is not empty. -/
def delimited? (opening closing : Char) : Text → Option Text
  | [] => none
  | c :: rest =>
    if c = opening then
      match Text.splitOnce closing rest with
      | some (name, _) => if name.isEmpty then none else some name
      | none => none
    else none

/-- Reads the operand of an include directive. -/
def parseInclude (line : Nat) (operand : Text) : Directive :=
  match delimited? '"' '"' operand, delimited? '<' '>' operand with
  | some name, _ => ⟨line, Text.trim name, .quoted⟩
  | none, some name => ⟨line, Text.trim name, .angled⟩
  | none, none => ⟨line, Text.trim operand, .computed⟩

/-- What one preprocessor line does to the open chains. -/
def stepChains (chains : List Chain) (p : PreprocessorLine) : List Chain :=
  if p.keyword = "if" then openChain chains (literalCondition? p.rest)
  else if p.keyword = "ifdef" ∨ p.keyword = "ifndef" then openChain chains none
  else if p.keyword = "elif" then onInnermost (·.next (literalCondition? p.rest)) chains
  else if p.keyword = "elifdef" ∨ p.keyword = "elifndef" then onInnermost (·.next none) chains
  else if p.keyword = "else" then onInnermost Chain.last chains
  else if p.keyword = "endif" then chains.drop 1
  else chains

/-- The active include directives of logical lines, inside the given chains. -/
def scanLines (chains : List Chain) : List LogicalLine → List Directive
  | [] => []
  | line :: rest =>
    match preprocessorLine? line.text with
    | none => scanLines chains rest
    | some p =>
      if p.keyword = "include" ∧ isActive chains then parseInclude line.start p.rest :: scanLines chains rest
      else scanLines (stepChains chains p) rest

/-- The active include directives of a source text. -/
def scanDirectives (source : Text) : List Directive := scanLines [] (logicalLines source)

end SolutionGraph.Include
