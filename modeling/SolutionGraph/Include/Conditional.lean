import SolutionGraph.Text.Basic

/-!
# Conditional compilation

Conditions are followed only as far as they are literal: `#if 0`, `#if (1)` and the like. All branches of a chain are
active from its first condition on that is not literal.
-/

namespace SolutionGraph.Include

/-- The truth value of a literal condition. -/
def literalCondition? (expression : Text) : Option Bool :=
  let opened := (Text.trim expression).dropWhile (· = '(')
  let bare := Text.trim (opened.reverse.dropWhile (· = ')')).reverse
  if bare = "0" ∨ bare = "false" then some false
  else if bare = "1" ∨ bare = "true" then some true
  else none

/-- A chain of conditional branches that is not closed yet. -/
structure Chain where
  /-- Whether the text around the chain is active. -/
  parentActive : Bool
  /-- Whether the present branch is active as far as the chain goes. -/
  branchActive : Bool
  /-- Whether a branch that is known to be true has been seen. -/
  taken : Bool
  /-- Whether a condition that is not literal has been seen. -/
  unknown : Bool
  deriving DecidableEq, Repr

/-- Whether text inside the open chains, innermost first, is active. -/
def isActive : List Chain → Bool
  | [] => true
  | chain :: _ => chain.parentActive && chain.branchActive

/-- Opens a chain with its first condition. -/
def openChain (chains : List Chain) (literal : Option Bool) : List Chain :=
  ⟨isActive chains, literal.getD true, literal == some true, literal.isNone⟩ :: chains

/-- Goes on to the next condition of a chain. -/
def Chain.next (chain : Chain) (literal : Option Bool) : Chain :=
  if chain.unknown then { chain with branchActive := true }
  else if chain.taken then { chain with branchActive := false }
  else { chain with branchActive := literal.getD true, taken := literal == some true, unknown := literal.isNone }

/-- Goes on to the last branch of a chain. -/
def Chain.last (chain : Chain) : Chain := { chain with branchActive := chain.unknown || !chain.taken }

/-- Changes the innermost chain, if there is one. -/
def onInnermost (f : Chain → Chain) : List Chain → List Chain
  | [] => []
  | chain :: outer => f chain :: outer

end SolutionGraph.Include
