import SolutionGraph.Condition.Parser
import SolutionGraph.Condition.Version
import SolutionGraph.FileTree.Basic
import SolutionGraph.Path.Normal

/-!
# Evaluating conditions

A condition has a truth value in a property bag, a file tree and a directory that paths are seen from. References in
operands are replaced first. `and` and `or` look at their right side only when the left one does not settle them.
-/

namespace SolutionGraph.Condition

/-- Compares two operands whose references are replaced. Equality does not heed the case of ASCII letters. -/
def compareTexts (left : Text) (op : CompareOp) (right : Text) : Except ConditionError Bool :=
  let ordered (holds : Ordering → Bool) : Except ConditionError Bool :=
    match compareVersions? left right with
    | some ordering => .ok (holds ordering)
    | none => .error (.notComparable left right)
  match op with
  | .eq => .ok (Text.eqIgnoringCase left right)
  | .ne => .ok (!Text.eqIgnoringCase left right)
  | .lt => ordered (· == .lt)
  | .le => ordered (· != .gt)
  | .gt => ordered (· == .gt)
  | .ge => ordered (· != .lt)

section Evaluation

variable (tree : FileTree) (bag : PropertyBag) (base : Path)

/-- The truth value of a condition. -/
def evaluate : Condition → Except ConditionError Bool
  | .value raw =>
    match truth? (bag.expand raw) with
    | some b => .ok b
    | none => .error (.notBoolean (bag.expand raw))
  | .compare left op right => compareTexts (bag.expand left) op (bag.expand right)
  | .fileExists raw =>
    let name := Text.trim (bag.expand raw)
    .ok (!name.isEmpty && tree.holds (Path.absolutize base name))
  | .hasTrailingSlash raw =>
    let last := (bag.expand raw).getLast?
    .ok (last == some '/' || last == some '\\')
  | .not inner => (evaluate inner).map (!·)
  | .and left right =>
    match evaluate left with
    | .ok true => evaluate right
    | settled => settled
  | .or left right =>
    match evaluate left with
    | .ok false => evaluate right
    | settled => settled

/-- The truth value of a condition's text; a blank one holds. -/
def evaluateText (text : Text) : Except ConditionError Bool :=
  if (Text.trim text).isEmpty then .ok true
  else
    match parse text with
    | .error e => .error e
    | .ok c => evaluate tree bag base c

end Evaluation

end SolutionGraph.Condition
