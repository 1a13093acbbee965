import SolutionGraph.Text.Basic

/-!
# Conditions

Groups, items, imports and targets of a script may carry a condition. A condition compares texts, asks whether a file
exists or a text ends in a slash, and is combined by negation, conjunction and disjunction. Operands keep the references
to properties that stand in them.
-/

namespace SolutionGraph

/-- How two operands are compared. -/
inductive CompareOp where
  | eq
  | ne
  | lt
  | le
  | gt
  | ge
  deriving DecidableEq, Repr

/-- How a comparison is written. -/
def CompareOp.text : CompareOp → Text
  | .eq => "=="
  | .ne => "!="
  | .lt => "<"
  | .le => "<="
  | .gt => ">"
  | .ge => ">="

/-- A condition. -/
inductive Condition where
  /-- An operand that has to spell a truth value. -/
  | value (raw : Text)
  /-- A comparison of two operands. -/
  | compare (left : Text) (op : CompareOp) (right : Text)
  /-- Whether a file or directory exists. -/
  | fileExists (raw : Text)
  /-- Whether a text ends in a slash of either kind. -/
  | hasTrailingSlash (raw : Text)
  /-- The negation of a condition. -/
  | not (inner : Condition)
  /-- Both conditions, the left one first. -/
  | and (left right : Condition)
  /-- One of the conditions, the left one first. -/
  | or (left right : Condition)
  deriving DecidableEq, Repr

/-- Why a condition has no truth value. -/
inductive ConditionError where
  | unterminatedString (offset : Nat)
  | unexpectedToken (token : Text)
  | unexpectedEnd
  | unknownFunction (name : Text)
  | notBoolean (value : Text)
  | notComparable (left right : Text)
  deriving DecidableEq, Repr

/-- The code of an error. -/
def ConditionError.code : ConditionError → Text
  | .unterminatedString _ => "vcxgraph::condition::unterminated_string"
  | .unexpectedToken _ => "vcxgraph::condition::unexpected_token"
  | .unexpectedEnd => "vcxgraph::condition::unexpected_end"
  | .unknownFunction _ => "vcxgraph::condition::unknown_function"
  | .notBoolean _ => "vcxgraph::condition::not_boolean"
  | .notComparable _ _ => "vcxgraph::condition::not_comparable"

/-- How an error is reported. -/
def ConditionError.message : ConditionError → Text
  | .unterminatedString offset => "unterminated string starting at offset " ++ Text.ofNat offset
  | .unexpectedToken token => "unexpected '" ++ token ++ "' in condition"
  | .unexpectedEnd => "condition ended unexpectedly"
  | .unknownFunction name => "unsupported condition function '" ++ name ++ "'"
  | .notBoolean value => "'" ++ value ++ "' is not a boolean"
  | .notComparable left right => "cannot order '" ++ left ++ "' and '" ++ right ++ "'"

end SolutionGraph
