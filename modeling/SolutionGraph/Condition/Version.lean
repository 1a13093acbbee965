import SolutionGraph.Condition.Basic

/-!
# Version numbers

Relational operators compare dotted version numbers. Zeros at the end of a version do not count.
-/

namespace SolutionGraph.Condition

/-- The bound of the numbers in a version. -/
def versionBound : Nat := 18446744073709551616

/-- The numbers of a dotted version. -/
def versionNumbers? (raw : Text) : Option (List Nat) :=
  (Text.splitOn '.' (Text.trim raw)).mapM (Text.number? versionBound)

/-- The numbers without the zeros at their end; one number always stays. -/
def dropTrailingZeros (parts : List Nat) : List Nat :=
  match (parts.reverse.dropWhile (· == 0)).reverse with
  | [] => parts.take 1
  | kept => kept

/-- What versions are compared by. -/
def versionKey? (raw : Text) : Option (List Nat) := (versionNumbers? raw).map dropTrailingZeros

/-- Compares lists of numbers by their first difference; a list comes before those that go on from it. -/
def compareNumbers : List Nat → List Nat → Ordering
  | [], [] => .eq
  | [], _ :: _ => .lt
  | _ :: _, [] => .gt
  | a :: as, b :: bs => if a < b then .lt else if b < a then .gt else compareNumbers as bs

/-- The order of two versions, if both are versions. -/
def compareVersions? (left right : Text) : Option Ordering := do
  return compareNumbers (← versionKey? left) (← versionKey? right)

end SolutionGraph.Condition
