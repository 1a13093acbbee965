/-!
# Reachability

A depth-first walk over a finite set of keys. A walk ends because each key is expanded once: what is left of the keys
gets fewer (`unseen_cons_lt`), and between two such steps the stack gets shorter, or what is on it weighs less (`total`).
-/

namespace SolutionGraph

section Walk

variable {α : Type} [DecidableEq α]

/-- How many of the keys have not been seen. -/
def unseen (keys seen : List α) : Nat := keys.countP fun k => k ∉ seen

/-- Seeing more leaves no more keys. -/
theorem unseen_cons_le (keys seen : List α) (x : α) : unseen keys (x :: seen) ≤ unseen keys seen := by
  unfold unseen
  apply List.countP_mono_left
  intro k _ h
  simp only [List.mem_cons, not_or, decide_eq_true_eq] at h ⊢
  exact h.2

/-- Seeing a new key leaves fewer. -/
theorem unseen_cons_lt {keys seen : List α} {x : α} (key : x ∈ keys) (new : x ∉ seen) :
    unseen keys (x :: seen) < unseen keys seen := by
  unfold unseen
  induction keys with
  | nil => simp at key
  | cons k rest ih =>
    by_cases hk : k = x
    · subst hk
      have : rest.countP (fun a => a ∉ k :: seen) ≤ rest.countP (fun a => a ∉ seen) := unseen_cons_le rest seen k
      simp only [List.countP_cons, List.mem_cons, true_or, not_true, decide_false, Bool.false_eq_true, if_false,
        new, not_false_iff, decide_true, if_true]
      simp only [List.mem_cons] at this
      omega
    · have inRest : x ∈ rest := (List.mem_cons.1 key).resolve_left fun e => hk e.symm
      have := ih inRest
      simp only [List.countP_cons, List.mem_cons, hk, false_or]
      simp only [List.mem_cons] at this
      omega

/-- The walk from a stack of nodes, in pre-order: a node that is new comes before what it leads to, and that before the
rest of the stack. Only keys lead on. -/
def preorder (next : α → List α) (keys seen : List α) : List α → List α
  | [] => []
  | x :: stack =>
    if x ∈ seen then preorder next keys seen stack
    else if x ∈ keys then x :: preorder next keys (x :: seen) (next x ++ stack)
    else x :: preorder next keys (x :: seen) stack
termination_by stack => (unseen keys seen, stack.length)
decreasing_by
  · exact Prod.Lex.right _ (by simp)
  · exact Prod.Lex.left _ _ (unseen_cons_lt (by assumption) (by assumption))
  · have := unseen_cons_le keys seen x
    rcases Nat.lt_or_eq_of_le this with h | h
    · exact Prod.Lex.left _ _ h
    · rw [h]; exact Prod.Lex.right _ (by simp)

end Walk

/-! ## Weights -/

/-- The sum of a list of weights. -/
def total : List Nat → Nat
  | [] => 0
  | n :: rest => n + total rest

@[simp]
theorem total_nil : total [] = 0 := rfl

@[simp]
theorem total_cons (n : Nat) (rest : List Nat) : total (n :: rest) = n + total rest := rfl

@[simp]
theorem total_append (ns ms : List Nat) : total (ns ++ ms) = total ns + total ms := by
  induction ns with
  | nil => simp
  | cons n rest ih => simp [ih, Nat.add_assoc]

end SolutionGraph
