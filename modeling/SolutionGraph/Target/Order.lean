import SolutionGraph.Reach
import SolutionGraph.Target.Basic

/-!
# The order in which targets run

A target runs after its prerequisites, if it is enabled, and after the targets that hook themselves before it; those that
hook themselves after it come next. Each target runs once, and a name that is not declared is passed over.
-/

namespace SolutionGraph.Target

/-- The targets that hook themselves by the given names to a target, once for each time they name it. -/
def hooks (names : Target → List Text) (table : Table) (anchor : Text) : List Text :=
  table.entries.flatMap fun (hook, target) => ((names target).filter fun name => key name == anchor).map fun _ => hook

/-- The targets that run before a target because they say so. -/
def hooksBefore (table : Table) (anchor : Text) : List Text := hooks Target.beforeTargets table anchor

/-- The targets that run after a target because they say so. -/
def hooksAfter (table : Table) (anchor : Text) : List Text := hooks Target.afterTargets table anchor

/-- The keys of the prerequisites that are followed. -/
def followed (t : Target) : List Text := if t.enabled then t.prerequisites.map key else []

/-- A step of the order. -/
inductive OrderTask where
  /-- Run a target with all that belongs to it. -/
  | visit (k : Text)
  /-- The turn of the target itself. -/
  | emit (k : Text)

/-- The targets of a list of steps in the order in which they run. -/
def orderFrom (table : Table) (seen : List Text) : List OrderTask → List Text
  | [] => []
  | .emit k :: rest => k :: orderFrom table seen rest
  | .visit k :: rest =>
    match table.get? k with
    | none => orderFrom table seen rest
    | some t =>
      if k ∈ table.keys ∧ k ∉ seen then
        orderFrom table (k :: seen)
          ((followed t).map .visit ++ (hooksBefore table k).map .visit ++ .emit k :: (hooksAfter table k).map .visit ++ rest)
      else orderFrom table seen rest
termination_by tasks => (unseen table.keys seen, tasks.length)
decreasing_by
  · exact Prod.Lex.right _ (by simp)
  · exact Prod.Lex.right _ (by simp)
  · rename_i new
    exact Prod.Lex.left _ _ (unseen_cons_lt new.1 new.2)
  · exact Prod.Lex.right _ (by simp)

/-- The targets that a build of the root runs, in order. -/
def runOrder (table : Table) (root : Text) : List Text := orderFrom table [] [.visit root]

end SolutionGraph.Target
