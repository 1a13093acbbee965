import SolutionGraph.Condition.Basic

/-!
# Writing conditions

`Condition.print` writes a condition with every operand in quotes and no more parentheses than the reader needs: `or` is
looser than `and`, which is looser than `!`, and both associate to the left.
-/

namespace SolutionGraph.Condition

/-- An operand in quotes. -/
def quote (raw : Text) : Text := "'" ++ raw ++ "'"

/-- How tightly a condition holds together: disjunction, conjunction, negation, and everything else. -/
def tightness : Condition → Nat
  | .or _ _ => 0
  | .and _ _ => 1
  | _ => 2

/-- A text in parentheses, if it has to be. -/
def enclose (needed : Bool) (t : Text) : Text := if needed then "(" ++ t ++ ")" else t

/-- Writes a condition. -/
def print : Condition → Text
  | .value raw => quote raw
  | .compare left op right => quote left ++ " " ++ op.text ++ " " ++ quote right
  | .fileExists raw => "Exists(" ++ quote raw ++ ")"
  | .hasTrailingSlash raw => "HasTrailingSlash(" ++ quote raw ++ ")"
  | .not inner => "!" ++ enclose (inner.tightness < 2) inner.print
  | .and left right =>
    enclose (left.tightness < 1) left.print ++ " and " ++ enclose (right.tightness < 2) right.print
  | .or left right => left.print ++ " or " ++ enclose (right.tightness < 1) right.print

end SolutionGraph.Condition
