import SolutionGraph.Text.Basic

/-!
# Property values

How the value of a property is read: as a list, as a wildcard, or as a truth value.
-/

namespace SolutionGraph

/-- The entries of a list value: it is cut at semicolons, and entries are trimmed and dropped when blank. -/
def splitList (raw : Text) : List Text := ((Text.splitOn ';' raw).map Text.trim).filter fun item => !item.isEmpty

/-- Whether an item or import stands for several files. -/
def isWildcard (entry : Text) : Bool := entry.any fun c => c = '*' || c = '?'

/-- The truth value that a text spells in any case, blanks around it apart. -/
def truth? (raw : Text) : Option Bool :=
  let t := Text.trim raw
  if Text.eqIgnoringCase t "true" then some true
  else if Text.eqIgnoringCase t "false" then some false
  else none

end SolutionGraph
