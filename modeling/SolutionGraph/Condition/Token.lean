import SolutionGraph.Condition.Basic
import SolutionGraph.Property.Bag

/-!
# Tokens of a condition

A condition is cut into quoted operands, words, comparisons and punctuation; blanks between them do not count.

* **words** (`readWord`): a word goes on to the next blank or punctuation, and a reference such as `$(Name)` in it is
  taken whole, up to the parenthesis that closes it;
* **tokens** (`tokenize`): a quote that is never closed and an equals sign that stands alone are faults.
-/

namespace SolutionGraph.Condition

/-- A token of a condition. -/
inductive Token where
  | quoted (text : Text)
  | word (text : Text)
  | op (o : CompareOp)
  | bang
  | openParen
  | closeParen
  | comma
  deriving DecidableEq, Repr

/-- How a token is written. -/
def Token.text : Token → Text
  | .quoted text => "'" ++ text ++ "'"
  | .word text => text
  | .op o => o.text
  | .bang => "!"
  | .openParen => "("
  | .closeParen => ")"
  | .comma => ","

/-! ## Words -/

/-- The characters that end a word. -/
def endsWord (c : Char) : Bool :=
  Text.isBlank c || c = '\'' || c = '(' || c = ')' || c = '!' || c = '=' || c = '<' || c = '>' || c = ','

/-- Takes a text through the parenthesis that closes the last of those that are open; `depth` are open before it. -/
def throughClose (depth : Nat) : Text → Text × Text
  | [] => ([], [])
  | c :: rest =>
    if c = '(' then
      let r := throughClose (depth + 1) rest
      (c :: r.1, r.2)
    else if c = ')' then
      if depth ≤ 1 then ([c], rest)
      else
        let r := throughClose (depth - 1) rest
        (c :: r.1, r.2)
    else
      let r := throughClose depth rest
      (c :: r.1, r.2)

/-- Nothing is lost where a reference ends. -/
theorem throughClose_append (depth : Nat) (t : Text) : (throughClose depth t).1 ++ (throughClose depth t).2 = t := by
  fun_induction throughClose depth t with
  | case1 => rfl
  | case2 depth rest r ih => rw [List.cons_append, ih]
  | case3 => rfl
  | case4 depth rest closing deep r ih => rw [List.cons_append, ih]
  | case5 depth c rest h h' r ih => rw [List.cons_append, ih]

/-- What follows a reference is no longer than the text. -/
theorem length_throughClose_le (depth : Nat) (t : Text) : (throughClose depth t).2.length ≤ t.length := by
  have whole := congrArg List.length (throughClose_append depth t)
  rw [List.length_append] at whole
  omega

/-- Reads a word off the start of a text; references are taken whole. -/
def readWord : Text → Text × Text
  | [] => ([], [])
  | [c] => if endsWord c then ([], [c]) else ([c], [])
  | c :: d :: rest =>
    if PropertyBag.isSigil c && d = '(' then
      let cut := throughClose 0 (d :: rest)
      let more := readWord cut.2
      (c :: (cut.1 ++ more.1), more.2)
    else if endsWord c then ([], c :: d :: rest)
    else
      let more := readWord (d :: rest)
      (c :: more.1, more.2)
termination_by t => t.length
decreasing_by
  · exact Nat.lt_succ_of_le (length_throughClose_le 0 (d :: rest))
  · simp

/-- A word and what follows it make up the text. -/
theorem readWord_append (t : Text) : (readWord t).1 ++ (readWord t).2 = t := by
  fun_induction readWord t with
  | case1 => rfl
  | case2 c h => rfl
  | case3 c h => rfl
  | case4 c d rest h cut more ih =>
    have whole : cut.1 ++ cut.2 = d :: rest := throughClose_append 0 (d :: rest)
    rw [List.cons_append, List.append_assoc, ih, whole]
  | case5 c d rest h h' => rfl
  | case6 c d rest h h' more ih => rw [List.cons_append, ih]

/-- What follows a word that is not empty is shorter than the text. -/
theorem length_readWord_lt {t : Text} (h : (readWord t).1 ≠ []) : (readWord t).2.length < t.length := by
  have whole := congrArg List.length (readWord_append t)
  have := List.length_pos_iff.2 h
  rw [List.length_append] at whole
  omega

/-! ## Tokens -/

/-- A comparison or a punctuation mark at the start of a text, with what follows it. -/
def mark? : Char → Text → Option (Token × Text)
  | '=', '=' :: after => some (.op .eq, after)
  | '!', '=' :: after => some (.op .ne, after)
  | '<', '=' :: after => some (.op .le, after)
  | '>', '=' :: after => some (.op .ge, after)
  | '<', after => some (.op .lt, after)
  | '>', after => some (.op .gt, after)
  | '!', after => some (.bang, after)
  | '(', after => some (.openParen, after)
  | ')', after => some (.closeParen, after)
  | ',', after => some (.comma, after)
  | _, _ => none

/-- What follows a mark is shorter than the text. -/
theorem length_mark?_le {c : Char} {rest after : Text} {token : Token} (h : mark? c rest = some (token, after)) :
    after.length ≤ rest.length := by
  unfold mark? at h
  split at h <;> simp only [Option.some.injEq, Prod.mk.injEq, reduceCtorEq] at h <;> (obtain ⟨-, rfl⟩ := h; simp)

/-- The token at the start of a text that does not start with a blank, with what follows it. -/
def firstToken (offset : Nat) (c : Char) (rest : Text) : Except ConditionError (Token × Text) :=
  if c = '\'' then
    match rest.dropWhile (· ≠ '\'') with
    | [] => .error (.unterminatedString offset)
    | _ :: after => .ok (.quoted (rest.takeWhile (· ≠ '\'')), after)
  else
    match mark? c rest with
    | some found => .ok found
    | none =>
      if (readWord (c :: rest)).1 = [] then .error (.unexpectedToken [c])
      else .ok (.word (readWord (c :: rest)).1, (readWord (c :: rest)).2)

/-- What follows the first token is shorter than the text. -/
theorem length_firstToken_le {offset : Nat} {c : Char} {rest after : Text} {token : Token}
    (h : firstToken offset c rest = .ok (token, after)) : after.length ≤ rest.length := by
  unfold firstToken at h
  split at h
  · split at h
    · simp at h
    · rename_i d tail e
      simp only [Except.ok.injEq, Prod.mk.injEq] at h
      have := (List.dropWhile_suffix (l := rest) (fun x => decide (x ≠ '\''))).length_le
      rw [e, List.length_cons] at this
      obtain ⟨-, rfl⟩ := h
      omega
  · split at h
    · rename_i found e
      simp only [Except.ok.injEq] at h
      exact length_mark?_le (h ▸ e)
    · split at h
      · simp at h
      · rename_i word
        simp only [Except.ok.injEq, Prod.mk.injEq] at h
        have := length_readWord_lt word
        rw [h.2, List.length_cons] at this
        omega

/-- Cuts the rest of a condition into tokens; `offset` is where it starts in the whole. -/
def tokenizeFrom (offset : Nat) : Text → Except ConditionError (List Token)
  | [] => .ok []
  | c :: rest =>
    if Text.isBlank c then tokenizeFrom (offset + 1) rest
    else
      match h : firstToken offset c rest with
      | .error e => .error e
      | .ok (token, after) =>
        (tokenizeFrom (offset + (rest.length + 1 - after.length)) after).map (token :: ·)
termination_by t => t.length
decreasing_by
  · simp
  · have := length_firstToken_le h
    simp only [List.length_cons]
    omega

/-- The tokens of a condition. -/
def tokenize (t : Text) : Except ConditionError (List Token) := tokenizeFrom 0 t

end SolutionGraph.Condition
