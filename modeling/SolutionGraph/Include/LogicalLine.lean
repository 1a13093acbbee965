import SolutionGraph.Text.Basic

/-!
# Logical lines of a source file

Directives are sought on logical lines: comments are taken out of every physical line first, where a block comment may
go on over lines, and a line that ends in a backslash is joined with the next one.

* **`stripComments`** takes the comments out of one physical line; string and character literals are left alone;
* **`logicalLines`** joins what is left, and keeps for each logical line the number of the line that it starts on.
-/

namespace SolutionGraph.Include

/-- Where in a source text a character stands. -/
inductive Place where
  /-- Outside comments and literals. -/
  | code
  /-- In a block comment. -/
  | block
  /-- In a literal that ends with the delimiter. -/
  | literal (delimiter : Char)
  deriving DecidableEq, Repr

/-- A physical line without its comments, and whether a block comment is still open at its end. A block comment leaves
one space where it ends. -/
def stripFrom : Place → Text → Text × Bool
  | .block, [] => ([], true)
  | .block, '*' :: '/' :: rest => let r := stripFrom .code rest; (' ' :: r.1, r.2)
  | .block, _ :: rest => stripFrom .block rest
  | .literal _, [] => ([], false)
  | .literal delimiter, '\\' :: c :: rest =>
    let r := stripFrom (.literal delimiter) rest
    ('\\' :: c :: r.1, r.2)
  | .literal delimiter, c :: rest =>
    let r := stripFrom (if c = delimiter then .code else .literal delimiter) rest
    (c :: r.1, r.2)
  | .code, [] => ([], false)
  | .code, '/' :: '/' :: _ => ([], false)
  | .code, '/' :: '*' :: rest => stripFrom .block rest
  | .code, c :: rest =>
    let r := stripFrom (if c = '"' ∨ c = '\'' then .literal c else .code) rest
    (c :: r.1, r.2)

/-- A physical line without its comments and without blanks at its end, and whether a block comment is open after it. -/
def stripComments (inBlock : Bool) (line : Text) : Text × Bool :=
  let r := stripFrom (if inBlock then .block else .code) line
  (Text.trimEnd r.1, r.2)

/-- A logical line and the number of the physical line that it starts on. -/
structure LogicalLine where
  /-- The number of its first physical line, from one. -/
  start : Nat
  /-- Its text without comments and continuations. -/
  text : Text
  deriving DecidableEq, Repr

/-- What is carried from one physical line to the next. -/
structure LineState where
  /-- The text of the logical line so far. -/
  pending : Text
  /-- The line that it started on. -/
  start : Nat
  /-- Whether a block comment is open. -/
  inBlock : Bool
  deriving DecidableEq, Repr

/-- The part of a text before a backslash that ends it. -/
def beforeBackslash? (t : Text) : Option Text := if t.getLast? = some '\\' then some t.dropLast else none

/-- Takes in one physical line; gives the logical line that it ends, if it ends one. -/
def LineState.step (s : LineState) (number : Nat) (line : Text) : Option LogicalLine × LineState :=
  let start := if s.pending.isEmpty then number else s.start
  let (stripped, inBlock) := stripComments s.inBlock line
  match beforeBackslash? stripped, inBlock with
  | some joined, false => (none, ⟨s.pending ++ joined ++ " ", start, false⟩)
  | _, true => (none, ⟨s.pending ++ stripped, start, true⟩)
  | none, false => (some ⟨start, s.pending ++ stripped⟩, ⟨[], start, false⟩)

/-- The logical lines of physical lines that are numbered from `number` on. -/
def logicalLinesFrom (s : LineState) (number : Nat) : List Text → List LogicalLine
  | [] => if s.pending.isEmpty then [] else [⟨s.start, s.pending⟩]
  | line :: rest =>
    let (ended, next) := s.step number line
    ended.toList ++ logicalLinesFrom next (number + 1) rest

/-- The logical lines of a source text. -/
def logicalLines (source : Text) : List LogicalLine := logicalLinesFrom ⟨[], 1, false⟩ 1 (Text.lines source)

end SolutionGraph.Include
