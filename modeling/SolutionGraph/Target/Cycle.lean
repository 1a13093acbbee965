import SolutionGraph.Target.Order

/-!
# Cycles and missing targets

A depth-first search over prerequisites tells the first cycle that it closes, and all prerequisites that are not declared.
Targets that are not enabled have no prerequisites here. A cycle starts at its smallest member, which is repeated at the
end.
-/

namespace SolutionGraph.Target

/-- A step of the search. -/
inductive SearchTask where
  /-- Search from a target. -/
  | enter (k : Text)
  /-- A prerequisite that is not declared. -/
  | missing (target prerequisite : Text)
  /-- Be done with the innermost target. -/
  | leave

/-- How much of the search a step stands for. -/
def SearchTask.weight : SearchTask → Nat
  | .enter _ => 2
  | _ => 1

/-- How much of the search is left. -/
def searchWeight (tasks : List SearchTask) : Nat := total (tasks.map SearchTask.weight)

/-- What the search has found. -/
structure SearchReport where
  /-- The first cycle. -/
  cycle : Option (List Text)
  /-- The prerequisites that are not declared, with the names of their targets. -/
  missing : List (Text × Text)
  deriving DecidableEq, Repr

/-- The smallest of a list of texts. -/
def smallest : Text → List Text → Text
  | least, [] => least
  | least, t :: rest => smallest (if t < least then t else least) rest

/-- A cycle, given by its members, from its smallest member on and back to it. -/
def canonicalCycle (members : List Text) : List Text :=
  match members with
  | [] => []
  | first :: rest =>
    let least := smallest first rest
    members.dropWhile (· ≠ least) ++ members.takeWhile (· ≠ least) ++ [least]

/-- The cycle that is closed by coming back to an open target; `opened` has the innermost target first. -/
def closedCycle (opened : List Text) (k : Text) : List Text := canonicalCycle (opened.reverse.dropWhile (· ≠ k))

/-- The steps that the prerequisites of a target stand for. -/
def prerequisiteTasks (table : Table) (t : Target) : List SearchTask :=
  if t.enabled then
    t.prerequisites.map fun name => if table.contains (key name) then .enter (key name) else .missing t.name name
  else []

/-- Works off the steps of the search. -/
def searchFrom (table : Table) (seen opened : List Text) (report : SearchReport) : List SearchTask → SearchReport
  | [] => report
  | .leave :: rest => searchFrom table seen opened.tail report rest
  | .missing target prerequisite :: rest =>
    searchFrom table seen opened { report with missing := report.missing ++ [(target, prerequisite)] } rest
  | .enter k :: rest =>
    if k ∈ seen then
      let closed := if k ∈ opened then report.cycle.or (some (closedCycle opened k)) else report.cycle
      searchFrom table seen opened { report with cycle := closed } rest
    else if k ∈ table.keys then
      let tasks := match table.get? k with
        | some t => prerequisiteTasks table t
        | none => []
      searchFrom table (k :: seen) (k :: opened) report (tasks ++ .leave :: rest)
    else searchFrom table (k :: seen) (k :: opened) report (.leave :: rest)
termination_by tasks => (unseen table.keys seen, searchWeight tasks)
decreasing_by
  · exact Prod.Lex.right _ (by simp [searchWeight, SearchTask.weight])
  · exact Prod.Lex.right _ (by simp [searchWeight, SearchTask.weight])
  · exact Prod.Lex.right _ (by simp [searchWeight, SearchTask.weight])
  · exact Prod.Lex.left _ _ (unseen_cons_lt (by assumption) (by assumption))
  · rcases Nat.lt_or_eq_of_le (unseen_cons_le table.keys seen k) with h | h
    · exact Prod.Lex.left _ _ h
    · rw [h]; exact Prod.Lex.right _ (by simp [searchWeight, SearchTask.weight])

/-- The search from a list of targets, one after the other. -/
def search (table : Table) (roots : List Text) : SearchReport :=
  searchFrom table [] [] ⟨none, []⟩ (roots.map .enter)

end SolutionGraph.Target
