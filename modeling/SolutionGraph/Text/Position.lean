import SolutionGraph.Text.Utf8

/-!
# Positions in a text

Positions are counted in bytes. A text can be cut where a character begins, and nowhere else.
-/

namespace SolutionGraph.Text

/-- The two parts of a text before and behind a position, if a character begins there or the text ends there. -/
def cutAt? : Text → Nat → Option (Text × Text)
  | t, 0 => some ([], t)
  | [], _ + 1 => none
  | c :: rest, n + 1 =>
    let size := (encodeChar c).length
    if n + 1 < size then none
    else (cutAt? rest (n + 1 - size)).map fun (before, behind) => (c :: before, behind)

/-- What stands behind a position. -/
def sliceFrom? (t : Text) (start : Nat) : Option Text := (cutAt? t start).map Prod.snd

/-- What stands between two positions. -/
def slice? (t : Text) (start stop : Nat) : Option Text := do
  let (before, _) ← cutAt? t stop
  sliceFrom? before start

/-- The positions where a part stands in the rest of a text that begins at a position; the first `skip` characters belong to
the place found before. -/
def matchesFrom (part : Text) (position skip : Nat) : Text → List Nat
  | [] => []
  | c :: rest =>
    let next := position + (encodeChar c).length
    match skip with
    | skip + 1 => matchesFrom part next skip rest
    | 0 =>
      if part.isPrefixOf (c :: rest) then position :: matchesFrom part next (part.length - 1) rest
      else matchesFrom part next 0 rest

/-- The positions where a part stands in a text, from the left and none inside the place before. The part is not empty. -/
def matchIndices (part t : Text) : List Nat := matchesFrom part 0 0 t

end SolutionGraph.Text
