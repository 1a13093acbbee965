import SolutionGraph.Proofs.Solution.Restriction

/-!
# Transitive references in order

The walk over references works off a stack, on which an id may stand several times. `depthFirst` is the same walk by
recursion: what is found below a project comes before its neighbours, and has been seen when they have their turn. An
entry of the stack that is stale by then is passed over, as a neighbour that was found below is (`preorder_append`).

So the transitive references of a project are told in depth-first pre-order, each once, and they are what else is reached
from it (`transitiveReferences_eq_depthFirst`).
-/

namespace SolutionGraph

section Walks

variable {α : Type} [DecidableEq α]

/-- A walk visits nothing twice. -/
theorem nodup_preorder (next : α → List α) (keys seen stack : List α) : (preorder next keys seen stack).Nodup := by
  fun_induction preorder next keys seen stack with
  | case1 => exact .nil
  | case2 seen x stack old ih => exact ih
  | case3 seen x stack new key ih =>
    exact List.nodup_cons.2 ⟨fun again => (preorder_sound again).1 List.mem_cons_self, ih⟩
  | case4 seen x stack new noKey ih =>
    exact List.nodup_cons.2 ⟨fun again => (preorder_sound again).1 List.mem_cons_self, ih⟩

/-- Seeing several nodes leaves no more keys. -/
theorem unseen_append_le (keys nodes seen : List α) : unseen keys (nodes ++ seen) ≤ unseen keys seen := by
  induction nodes with
  | nil => exact Nat.le_refl _
  | cons x nodes ih => exact Nat.le_trans (unseen_cons_le keys (nodes ++ seen) x) ih

end Walks

namespace Solution

/-- A project of the solution references an id. -/
def References (s : Solution) (id other : ProjectId) : Prop := ∃ p, s.project? id = some p ∧ other ∈ p.references

/-- The depth-first walk by recursion, from a list of ids and without those that have been seen: an id comes before what
is found below it, in the order of its references, and that before its neighbours, for which all of it has been seen. -/
def depthFirst (s : Solution) (seen : List ProjectId) : List ProjectId → List ProjectId
  | [] => []
  | id :: others =>
    if id ∈ seen then s.depthFirst seen others
    else
      match _known : s.project? id with
      | none => id :: s.depthFirst (id :: seen) others
      | some p =>
        let below := s.depthFirst (id :: seen) p.references
        id :: (below ++ s.depthFirst (below.reverse ++ id :: seen) others)
termination_by ids => (unseen s.projects.keys seen, ids.length)
decreasing_by
  · exact Prod.Lex.right _ (by simp)
  · rcases Nat.lt_or_eq_of_le (unseen_cons_le s.projects.keys seen id) with fewer | same
    · exact Prod.Lex.left _ _ fewer
    · rw [same]
      exact Prod.Lex.right _ (by simp)
  · rename_i new
    exact Prod.Lex.left _ _ (unseen_cons_lt (OrderedMap.mem_keys_of_get?_eq_some _known) new)
  · rename_i new
    have fewer := unseen_cons_lt (OrderedMap.mem_keys_of_get?_eq_some _known) new
    exact Prod.Lex.left _ _ (Nat.lt_of_le_of_lt (unseen_append_le _ _ _) fewer)

section Walk

variable {s : Solution} {id other : ProjectId}

theorem referencesIn_of_project? {p : Project} (known : s.project? id = some p) :
    referencesIn s.projects id = p.references := by
  unfold project? at known
  rw [referencesIn, known]

theorem follows_iff : Follows (referencesIn s.projects) s.projects.keys id other ↔ s.References id other := by
  unfold Follows References referencesIn project?
  constructor
  · rintro ⟨_, edge⟩
    split at edge
    · exact ⟨_, ‹_›, edge⟩
    · cases edge
  · rintro ⟨p, known, edge⟩
    rw [known]
    exact ⟨OrderedMap.mem_keys_of_get?_eq_some known, edge⟩

/-- **The stack is worked off as the recursion goes**: first what the recursion finds from the ids on top, and then, with
all of that seen, the rest. -/
theorem preorder_append (s : Solution) (seen ids stack : List ProjectId) :
    preorder (referencesIn s.projects) s.projects.keys seen (ids ++ stack) =
      s.depthFirst seen ids ++
        preorder (referencesIn s.projects) s.projects.keys ((s.depthFirst seen ids).reverse ++ seen) stack := by
  fun_induction depthFirst s seen ids generalizing stack with
  | case1 seen => rfl
  | case2 seen id others old ih => rw [List.cons_append, preorder, if_pos old, ih]
  | case3 seen id others new unknown ih =>
    have noKey : id ∉ s.projects.keys := OrderedMap.get?_eq_none_iff.1 unknown
    rw [List.cons_append, preorder, if_neg new, if_neg noKey, ih]
    simp
  | case4 seen id others new p known below ihBelow ihOthers =>
    have key : id ∈ s.projects.keys := OrderedMap.mem_keys_of_get?_eq_some known
    -- the references of the project go on top of its neighbours
    have stacked : preorder (referencesIn s.projects) s.projects.keys seen (id :: others ++ stack) =
        id :: preorder (referencesIn s.projects) s.projects.keys (id :: seen) (p.references ++ (others ++ stack)) := by
      rw [List.cons_append, preorder, if_neg new, if_pos key, referencesIn_of_project? known]
    rw [stacked, ihBelow, ihOthers]
    simp [below]

end Walk

/-- **Transitive references are told in depth-first pre-order.** They are what the recursion finds below a project, with
the project itself seen from the start; nothing is told twice, and exactly what else is reached through references is
told. -/
theorem transitiveReferences_eq_depthFirst (s : Solution) (id : ProjectId) :
    s.transitiveReferences id = s.depthFirst [id] (referencesIn s.projects id) ∧
      (s.transitiveReferences id).Nodup ∧
      id ∉ s.transitiveReferences id ∧
      ∀ other, other ∈ s.transitiveReferences id ↔ other ≠ id ∧ Relation.ReflTransGen s.References id other := by
  have walked : s.transitiveReferences id = s.depthFirst [id] (referencesIn s.projects id) := by
    have parts := preorder_append s [id] (referencesIn s.projects id) []
    rwa [List.append_nil, preorder, List.append_nil] at parts
  have reached (other : ProjectId) : other ∈ s.transitiveReferences id ↔
      other ≠ id ∧ Relation.ReflTransGen s.References id other := by
    have same : Follows (referencesIn s.projects) s.projects.keys = s.References := by
      funext a b
      exact propext follows_iff
    rw [← same]
    exact mem_preorder_next referencesIn_of_not_mem
  exact ⟨walked, nodup_preorder _ _ _ _, fun self => ((reached id).1 self).1 rfl, reached⟩

end Solution

end SolutionGraph
