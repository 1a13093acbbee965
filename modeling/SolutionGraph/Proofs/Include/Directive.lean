import SolutionGraph.Include.Directive

/-!
# Lines and the directives on them

What a logical line does to a scan: it may hold an include directive, and it may change the open chains.

* **one line** (`scanLines_cons`): the directive of the line comes first if the line is active, and the scan goes on in
  the chains that the line leaves;
* **many lines** (`scanLines_append`): a scan can be cut between any two lines.
-/

namespace SolutionGraph.Include

/-- What a logical line is to the open chains. -/
inductive Role where
  /-- It opens a chain with a condition, which may be literal. -/
  | opens (literal : Option Bool)
  /-- It goes on to the next condition of the innermost chain. -/
  | continues (literal : Option Bool)
  /-- It goes on to the last branch of the innermost chain. -/
  | last
  /-- It closes the innermost chain. -/
  | closes
  /-- It leaves the chains alone. -/
  | plain
  deriving DecidableEq, Repr

/-- What a line of this kind does to the open chains. -/
def Role.step (role : Role) (chains : List Chain) : List Chain :=
  match role with
  | .opens literal => openChain chains literal
  | .continues literal => onInnermost (·.next literal) chains
  | .last => onInnermost Chain.last chains
  | .closes => chains.drop 1
  | .plain => chains

/-- What a preprocessor line is to the open chains. -/
def PreprocessorLine.role (p : PreprocessorLine) : Role :=
  if p.keyword = "if" then .opens (literalCondition? p.rest)
  else if p.keyword = "ifdef" ∨ p.keyword = "ifndef" then .opens none
  else if p.keyword = "elif" then .continues (literalCondition? p.rest)
  else if p.keyword = "elifdef" ∨ p.keyword = "elifndef" then .continues none
  else if p.keyword = "else" then .last
  else if p.keyword = "endif" then .closes
  else .plain

/-- What a logical line is to the open chains. -/
def LogicalLine.role (line : LogicalLine) : Role :=
  ((preprocessorLine? line.text).map PreprocessorLine.role).getD .plain

/-- The include directive on a logical line. -/
def LogicalLine.include? (line : LogicalLine) : Option Directive :=
  (preprocessorLine? line.text).bind fun p =>
    if p.keyword = "include" then some (parseInclude line.start p.rest) else none

theorem parseInclude_eq (line : Nat) (operand : Text) :
    parseInclude line operand = { parseInclude 0 operand with line } := by
  unfold parseInclude
  split <;> rfl

/-- Only the line of a directive depends on where its logical line starts. -/
theorem LogicalLine.include?_eq (line : LogicalLine) :
    line.include? = (LogicalLine.include? { line with start := 0 }).map fun d => { d with line := line.start } := by
  unfold include?
  cases preprocessorLine? line.text with
  | none => rfl
  | some p =>
    simp only [Option.bind_some]
    split
    · exact congrArg some (parseInclude_eq line.start p.rest)
    · rfl

theorem LogicalLine.line_of_include? (line : LogicalLine) {d : Directive} (held : line.include? = some d) :
    d.line = line.start := by
  rw [include?_eq, Option.map_eq_some_iff] at held
  obtain ⟨_, _, rfl⟩ := held
  rfl

theorem stepChains_eq (chains : List Chain) (p : PreprocessorLine) : stepChains chains p = p.role.step chains := by
  unfold stepChains PreprocessorLine.role
  repeat' split
  all_goals rfl

theorem PreprocessorLine.role_of_include {p : PreprocessorLine} (h : p.keyword = "include") : p.role = .plain := by
  unfold role
  rw [h]
  rfl

/-- A line that changes the chains holds no include directive. -/
theorem LogicalLine.include?_of_role (line : LogicalLine) (h : line.role ≠ .plain) : line.include? = none := by
  unfold role at h
  unfold include?
  cases read : preprocessorLine? line.text with
  | none => rfl
  | some p =>
    rw [read] at h
    exact if_neg fun isInclude => h (PreprocessorLine.role_of_include isInclude)

theorem scanLines_of_none (chains : List Chain) {line : LogicalLine} (rest : List LogicalLine)
    (read : preprocessorLine? line.text = none) : scanLines chains (line :: rest) = scanLines chains rest := by
  rw [scanLines.eq_def]
  simp only [read]

/-- A line without text is no directive. -/
theorem scanLines_empty_line (chains : List Chain) (start : Nat) (lines : List LogicalLine) :
    scanLines chains (⟨start, []⟩ :: lines) = scanLines chains lines := scanLines_of_none chains lines rfl

theorem scanLines_of_some (chains : List Chain) {line : LogicalLine} (rest : List LogicalLine) {p : PreprocessorLine}
    (read : preprocessorLine? line.text = some p) : scanLines chains (line :: rest) =
      if p.keyword = "include" ∧ isActive chains then parseInclude line.start p.rest :: scanLines chains rest
      else scanLines (p.role.step chains) rest := by
  rw [scanLines.eq_def, ← stepChains_eq]
  simp only [read]

/-- **One line of a scan.** -/
theorem scanLines_cons (chains : List Chain) (line : LogicalLine) (rest : List LogicalLine) :
    scanLines chains (line :: rest) =
      (if isActive chains then line.include?.toList else []) ++ scanLines (line.role.step chains) rest := by
  cases read : preprocessorLine? line.text with
  | none =>
    rw [scanLines_of_none chains rest read, LogicalLine.include?, LogicalLine.role, read]
    exact (congrArg (· ++ _) (ite_self [])).symm
  | some p =>
    have role : line.role = p.role := by rw [LogicalLine.role, read]; rfl
    rw [scanLines_of_some chains rest read, role]
    by_cases isInclude : p.keyword = "include"
    · have held : line.include? = some (parseInclude line.start p.rest) := by
        rw [LogicalLine.include?, read, Option.bind_some, if_pos isInclude]
      have stays : p.role.step chains = chains := by rw [PreprocessorLine.role_of_include isInclude, Role.step]
      rw [held, stays]
      by_cases active : isActive chains
      · rw [if_pos ⟨isInclude, active⟩, if_pos active]
        rfl
      · rw [if_neg fun h => active h.2, if_neg active]
        rfl
    · have held : line.include? = none := by rw [LogicalLine.include?, read, Option.bind_some, if_neg isInclude]
      rw [if_neg fun h => isInclude h.1, held]
      exact (congrArg (· ++ _) (ite_self [])).symm

/-- A line that changes the chains is passed over. -/
theorem scanLines_of_role (chains : List Chain) {line : LogicalLine} (rest : List LogicalLine)
    (h : line.role ≠ .plain) : scanLines chains (line :: rest) = scanLines (line.role.step chains) rest := by
  rw [scanLines_cons, line.include?_of_role h]
  exact congrArg (· ++ _) (ite_self [])

/-- The chains that lines leave open. -/
def chainsAfter (chains : List Chain) (lines : List LogicalLine) : List Chain :=
  lines.foldl (fun chains line => line.role.step chains) chains

theorem scanLines_append (chains : List Chain) (a b : List LogicalLine) :
    scanLines chains (a ++ b) = scanLines chains a ++ scanLines (chainsAfter chains a) b := by
  induction a generalizing chains with
  | nil => rfl
  | cons line a ih => rw [List.cons_append, scanLines_cons, scanLines_cons, ih, List.append_assoc]; rfl

end SolutionGraph.Include
