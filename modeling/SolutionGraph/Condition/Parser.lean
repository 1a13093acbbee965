import SolutionGraph.Condition.Token

/-!
# Reading conditions

`Condition.parse` reads a condition from its tokens. Disjunction binds loosest, then conjunction, then negation; both
`and` and `or` associate to the left and are known in any case. A word before an opening parenthesis is a function, and
any other operand is a truth value or the left side of a comparison.

Every reader gives back the tokens that are left together with the fact that they are fewer, which is why reading ends.
-/

namespace SolutionGraph.Condition

/-- The operand that a token is, if it is one. -/
def Token.operand? : Token → Option Text
  | .quoted text | .word text => some text
  | _ => none

/-- Whether a token is a given word in some case. -/
def Token.isWord (keyword : Text) : Token → Bool
  | .word text => Text.eqIgnoringCase text keyword
  | _ => false

/-- A condition read off the start of a list of tokens, and the fewer tokens that are left. -/
abbrev Parsed (ts : List Token) := Except ConditionError { r : Condition × List Token // r.2.length < ts.length }

/-- A condition that takes in some further tokens, and the tokens that are left. -/
abbrev Extended (ts : List Token) := Except ConditionError { r : Condition × List Token // r.2.length ≤ ts.length }

/-- Reads the operand at the start of a list of tokens. -/
def parseOperand (ts : List Token) : Except ConditionError { r : Text × List Token // r.2.length < ts.length } :=
  match ts with
  | [] => .error .unexpectedEnd
  | token :: rest =>
    match token.operand? with
    | some text => .ok ⟨(text, rest), by simp⟩
    | none => .error (.unexpectedToken token.text)

/-- Takes the closing parenthesis off a list of tokens. -/
def expectClose (ts : List Token) : Except ConditionError { rest : List Token // rest.length < ts.length } :=
  match ts with
  | [] => .error .unexpectedEnd
  | .closeParen :: rest => .ok ⟨rest, by simp⟩
  | token :: _ => .error (.unexpectedToken token.text)

/-- The function of a name, applied to its operand. -/
def function (name operand : Text) : Except ConditionError Condition :=
  if Text.eqIgnoringCase name "Exists" then .ok (.fileExists operand)
  else if Text.eqIgnoringCase name "HasTrailingSlash" then .ok (.hasTrailingSlash operand)
  else .error (.unknownFunction name)

/-- Reads the operand and the closing parenthesis of a function. -/
def parseCall (name : Text) (ts : List Token) : Parsed ts :=
  match parseOperand ts with
  | .error e => .error e
  | .ok ⟨(operand, afterOperand), h⟩ =>
    match expectClose afterOperand with
    | .error e => .error e
    | .ok ⟨rest, h'⟩ => (function name operand).map fun c => ⟨(c, rest), Nat.lt_trans h' h⟩

/-- Reads the rest of a comparison, or leaves the operand alone. -/
def parseComparison (left : Text) (ts : List Token) : Extended ts :=
  match ts with
  | .op op :: rest =>
    match parseOperand rest with
    | .error e => .error e
    | .ok ⟨(right, after), h⟩ => .ok ⟨(.compare left op right, after), by simp only [List.length_cons] at *; omega⟩
  | ts => .ok ⟨(.value left, ts), Nat.le_refl _⟩

mutual

/-- Reads a disjunction. -/
def parseOr (ts : List Token) : Parsed ts :=
  match parseAnd ts with
  | .error e => .error e
  | .ok ⟨(left, rest), h⟩ =>
    match parseOrTail left rest with
    | .error e => .error e
    | .ok ⟨r, h'⟩ => .ok ⟨r, Nat.lt_of_le_of_lt h' h⟩
termination_by (ts.length, 3)

/-- Reads the further parts of a disjunction. -/
def parseOrTail (left : Condition) (ts : List Token) : Extended ts :=
  match ts with
  | [] => .ok ⟨(left, []), Nat.le_refl _⟩
  | token :: rest =>
    if token.isWord "or" then
      match parseAnd rest with
      | .error e => .error e
      | .ok ⟨(right, after), h⟩ =>
        match parseOrTail (.or left right) after with
        | .error e => .error e
        | .ok ⟨r, h'⟩ => .ok ⟨r, by simp only [List.length_cons] at *; omega⟩
    else .ok ⟨(left, token :: rest), Nat.le_refl _⟩
termination_by (ts.length, 0)
decreasing_by
  · exact Prod.Lex.left _ _ (by simp)
  · exact Prod.Lex.left _ _ (by simp only [List.length_cons] at *; omega)

/-- Reads a conjunction. -/
def parseAnd (ts : List Token) : Parsed ts :=
  match parseUnary ts with
  | .error e => .error e
  | .ok ⟨(left, rest), h⟩ =>
    match parseAndTail left rest with
    | .error e => .error e
    | .ok ⟨r, h'⟩ => .ok ⟨r, Nat.lt_of_le_of_lt h' h⟩
termination_by (ts.length, 2)

/-- Reads the further parts of a conjunction. -/
def parseAndTail (left : Condition) (ts : List Token) : Extended ts :=
  match ts with
  | [] => .ok ⟨(left, []), Nat.le_refl _⟩
  | token :: rest =>
    if token.isWord "and" then
      match parseUnary rest with
      | .error e => .error e
      | .ok ⟨(right, after), h⟩ =>
        match parseAndTail (.and left right) after with
        | .error e => .error e
        | .ok ⟨r, h'⟩ => .ok ⟨r, by simp only [List.length_cons] at *; omega⟩
    else .ok ⟨(left, token :: rest), Nat.le_refl _⟩
termination_by (ts.length, 0)
decreasing_by
  · exact Prod.Lex.left _ _ (by simp)
  · exact Prod.Lex.left _ _ (by simp only [List.length_cons] at *; omega)

/-- Reads negations and what they apply to. -/
def parseUnary (ts : List Token) : Parsed ts :=
  match ts with
  | .bang :: rest =>
    match parseUnary rest with
    | .error e => .error e
    | .ok ⟨(inner, after), h⟩ => .ok ⟨(.not inner, after), by simp only [List.length_cons] at *; omega⟩
  | ts => parsePrimary ts
termination_by (ts.length, 1)

/-- Reads a condition in parentheses, a function, a comparison or a truth value. -/
def parsePrimary (ts : List Token) : Parsed ts :=
  match ts with
  | [] => .error .unexpectedEnd
  | .openParen :: rest =>
    match parseOr rest with
    | .error e => .error e
    | .ok ⟨(inner, after), h⟩ =>
      match expectClose after with
      | .error e => .error e
      | .ok ⟨after', h'⟩ => .ok ⟨(inner, after'), by simp only [List.length_cons] at *; omega⟩
  | .word name :: .openParen :: rest =>
    match parseCall name rest with
    | .error e => .error e
    | .ok ⟨r, h⟩ => .ok ⟨r, by simp only [List.length_cons] at *; omega⟩
  | token :: rest =>
    match token.operand? with
    | none => .error (.unexpectedToken token.text)
    | some left =>
      match parseComparison left rest with
      | .error e => .error e
      | .ok ⟨r, h⟩ => .ok ⟨r, by simp only [List.length_cons] at *; omega⟩
termination_by (ts.length, 0)

end

/-- Reads a condition; no token may be left over. -/
def parse (t : Text) : Except ConditionError Condition :=
  match tokenize t with
  | .error e => .error e
  | .ok ts =>
    match parseOr ts with
    | .error e => .error e
    | .ok ⟨(c, []), _⟩ => .ok c
    | .ok ⟨(_, token :: _), _⟩ => .error (.unexpectedToken token.text)

end SolutionGraph.Condition
