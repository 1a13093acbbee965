import SolutionGraph.Target.Basic

/-!
# Property overrides

Overrides are written as `Name=Value` pairs with semicolons between them. Of two overrides of one name, in any case, the
later one counts, in its place.
-/

namespace SolutionGraph.Target

/-- Properties that scripts cannot change, with their values. -/
abbrev Overrides := OrderedMap Text Text

/-- Reads one override. -/
def parseOverride (entry : Text) : Except TargetError (Text × Text) :=
  match Text.splitOnce '=' entry with
  | some (name, value) =>
    if (Text.trim name).isEmpty then .error (.invalidOverride entry) else .ok (Text.trim name, Text.trim value)
  | none => .error (.invalidOverride entry)

/-- The overrides with one more at the end, which takes the place of those of its name. -/
def addOverride (overrides : List (Text × Text)) (new : Text × Text) : List (Text × Text) :=
  (overrides.filter fun old => !Text.eqIgnoringCase old.1 new.1) ++ [new]

/-- Reads a list of overrides. -/
def parseOverrides (text : Text) : Except TargetError Overrides := do
  let pairs ← (splitList text).mapM parseOverride
  return ⟨pairs.foldl addOverride []⟩

end SolutionGraph.Target
