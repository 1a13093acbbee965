import SolutionGraph.Condition.Parser
import SolutionGraph.Condition.Printer

/-!
# Printed conditions are read back

`Condition.parse` gives back every condition that `Condition.print` writes (`parse_print`), whatever its operands look
like: they may be words such as `or`, comparisons, parentheses or references, as long as they have no single quote.

* **tokens**: each part of a printed condition is cut into the tokens that it was written for, whatever follows it
  (`Spells`), and so is the whole (`spells_print`);
* **reading**: each reader has one rule for each way to go on (`Gives`), and a condition is read off its tokens at all
  three levels of tightness (`readsBack`).
-/

namespace SolutionGraph.Condition

/-- The operands of a condition. -/
def operands : Condition → List Text
  | .value raw | .fileExists raw | .hasTrailingSlash raw => [raw]
  | .compare left _ right => [left, right]
  | .not inner => inner.operands
  | .and left right | .or left right => left.operands ++ right.operands

/-- A condition that can be written with its operands in single quotes. -/
def IsQuotable (c : Condition) : Prop := ∀ raw ∈ c.operands, '\'' ∉ raw

instance (c : Condition) : Decidable c.IsQuotable := inferInstanceAs (Decidable (∀ raw ∈ c.operands, '\'' ∉ raw))

/-! ## The tokens of a printed condition -/

/-- Tokens in parentheses, if they have to be. -/
def encloseTokens (needed : Bool) (ts : List Token) : List Token :=
  if needed then .openParen :: (ts ++ [.closeParen]) else ts

/-- The tokens that a condition is printed with. -/
def tokens : Condition → List Token
  | .value raw => [.quoted raw]
  | .compare left op right => [.quoted left, .op op, .quoted right]
  | .fileExists raw => [.word "Exists", .openParen, .quoted raw, .closeParen]
  | .hasTrailingSlash raw => [.word "HasTrailingSlash", .openParen, .quoted raw, .closeParen]
  | .not inner => .bang :: encloseTokens (inner.tightness < 2) inner.tokens
  | .and left right =>
    encloseTokens (left.tightness < 1) left.tokens ++ .word "and" :: encloseTokens (right.tightness < 2) right.tokens
  | .or left right => left.tokens ++ .word "or" :: encloseTokens (right.tightness < 1) right.tokens

/-- A text is cut into the tokens, whatever comes before it and whatever follows it. -/
def Spells (t : Text) (ts : List Token) : Prop :=
  ∀ offset rest, ∃ offset', tokenizeFrom offset (t ++ rest) = (tokenizeFrom offset' rest).map (ts ++ ·)

section Spelling

variable {a b t u w raw : Text} {c : Char} {as bs ts : List Token} {token : Token}

theorem Spells.append (left : Spells a as) (right : Spells b bs) : Spells (a ++ b) (as ++ bs) := by
  intro offset rest
  obtain ⟨offset', cut⟩ := left offset (b ++ rest)
  obtain ⟨offset'', cut'⟩ := right offset' rest
  refine ⟨offset'', ?_⟩
  rw [List.append_assoc, cut, cut']
  cases tokenizeFrom offset'' rest with
  | error e => rfl
  | ok more => exact congrArg Except.ok (List.append_assoc as bs more).symm

/-- A blank before a text does not count. -/
theorem Spells.blank (more : Spells t ts) : Spells (' ' :: t) ts := by
  intro offset rest
  obtain ⟨offset', cut⟩ := more (offset + 1) rest
  have blank : Text.isBlank ' ' := rfl
  exact ⟨offset', by rw [List.cons_append, tokenizeFrom, if_pos blank, cut]⟩

/-- A text begins with a token if that is its first token whatever follows the text. -/
theorem Spells.cons (solid : Text.isBlank c = false)
    (first : ∀ offset rest, firstToken offset c (t ++ (u ++ rest)) = .ok (token, u ++ rest)) (more : Spells u ts) :
    Spells (c :: (t ++ u)) (token :: ts) := by
  intro offset rest
  obtain ⟨offset', cut⟩ := more (offset + ((t ++ (u ++ rest)).length + 1 - (u ++ rest).length)) rest
  refine ⟨offset', ?_⟩
  rw [List.cons_append, List.append_assoc, tokenizeFrom, solid, if_neg Bool.false_ne_true]
  split
  · rename_i failed
    rw [first] at failed
    cases failed
  · rename_i found
    rw [first] at found
    cases found
    rw [cut]
    cases tokenizeFrom offset' rest <;> rfl

theorem spells_nil : Spells [] [] := by
  intro offset rest
  refine ⟨offset, ?_⟩
  rw [List.nil_append]
  cases tokenizeFrom offset rest <;> rfl

/-! ### Operands, marks and words -/

theorem spells_quote (plain : '\'' ∉ raw) : Spells (quote raw) [.quoted raw] := by
  have stops : ∀ c ∈ raw, c ≠ '\'' := fun c mem same => plain (same ▸ mem)
  have cut : quote raw = '\'' :: ((raw ++ ['\'']) ++ []) := by simp [quote]
  rw [cut]
  refine Spells.cons rfl (fun offset rest => ?_) spells_nil
  have left : (raw ++ ['\''] ++ ([] ++ rest)).dropWhile (· ≠ '\'') = '\'' :: rest := by
    rw [List.append_assoc, List.dropWhile_append_of_pos (by simpa using stops)]
    rfl
  have taken : (raw ++ ['\''] ++ ([] ++ rest)).takeWhile (· ≠ '\'') = raw := by
    rw [List.append_assoc, List.takeWhile_append_of_pos (by simpa using stops)]
    simp
  rw [firstToken, if_pos rfl, left, taken]
  rfl

theorem spells_openParen (more : Spells t ts) : Spells ('(' :: t) (.openParen :: ts) :=
  Spells.cons (t := []) rfl (fun _ _ => rfl) more

theorem spells_closeParen : Spells [')'] [.closeParen] := Spells.cons (t := []) rfl (fun _ _ => rfl) spells_nil

/-- An exclamation mark is a token of its own unless an equals sign follows it. -/
theorem spells_bang (apart : c ≠ '=') (more : Spells (c :: t) ts) : Spells ('!' :: c :: t) (.bang :: ts) := by
  refine Spells.cons (t := []) (u := c :: t) rfl (fun offset rest => ?_) more
  have found : mark? '!' (c :: (t ++ rest)) = some (.bang, c :: (t ++ rest)) := by
    unfold mark?
    split <;> simp_all
  rw [firstToken, if_neg (by decide), List.nil_append, List.cons_append, found]

theorem spells_op (op : CompareOp) (more : Spells t ts) : Spells (op.text ++ ' ' :: t) (.op op :: ts) := by
  cases op with
  | eq | ne | le | ge => exact Spells.cons (t := ['=']) rfl (fun _ _ => rfl) more.blank
  | lt | gt => exact Spells.cons (t := []) rfl (fun _ _ => rfl) more.blank

/-- The characters of a plain word: they do not end it, and no reference begins with them. -/
def IsPlainWord (w : Text) : Prop := w ≠ [] ∧ ∀ c ∈ w, endsWord c = false ∧ PropertyBag.isSigil c = false

-- the instance is named, since characters as such can be gone through, too
instance (w : Text) : Decidable (IsPlainWord w) := @instDecidableAnd _ _ _ (List.decidableBAll _ w)

theorem readWord_append_cons (plain : ∀ c ∈ w, endsWord c = false ∧ PropertyBag.isSigil c = false) (stop : endsWord c)
    (rest : Text) : readWord (w ++ c :: rest) = (w, c :: rest) := by
  induction w with
  | nil =>
    have noSigil : PropertyBag.isSigil c = false := by
      rw [Bool.eq_false_iff]
      intro sigil
      simp only [PropertyBag.isSigil, Bool.or_eq_true, decide_eq_true_eq] at sigil
      rcases sigil with (rfl | rfl) | rfl <;> cases stop
    cases rest with
    | nil => simp [readWord.eq_def, stop]
    | cons d rest =>
      rw [List.nil_append, readWord.eq_def]
      simp [noSigil, stop]
  | cons d w ih =>
    obtain ⟨⟨inner, noSigil⟩, plain⟩ := List.forall_mem_cons.1 plain
    have more : w ++ c :: rest ≠ [] := List.append_ne_nil_of_right_ne_nil w (List.cons_ne_nil c rest)
    obtain ⟨e, tail, whole⟩ := List.exists_cons_of_ne_nil more
    rw [List.cons_append, whole, readWord.eq_def]
    simp only [noSigil, inner, Bool.false_and, Bool.false_eq_true, if_false]
    rw [← whole, ih plain]

theorem mark?_eq_none (inner : endsWord c = false) (rest : Text) : mark? c rest = none := by
  unfold mark?
  split <;> simp_all [endsWord]

theorem spells_word (plain : IsPlainWord w) (stop : endsWord c) (more : Spells (c :: t) ts) :
    Spells (w ++ c :: t) (.word w :: ts) := by
  obtain ⟨some, plain⟩ := plain
  obtain ⟨d, w, rfl⟩ := List.exists_cons_of_ne_nil some
  have inner : endsWord d = false := (plain d List.mem_cons_self).1
  refine Spells.cons ?_ (fun offset rest => ?_) more
  · simp_all [endsWord]
  · have whole : d :: (w ++ (c :: t ++ rest)) = (d :: w) ++ c :: (t ++ rest) := by simp
    have unquoted : d ≠ '\'' := by
      rintro rfl
      cases inner
    rw [firstToken, if_neg unquoted, mark?_eq_none inner]
    simp only [whole, readWord_append_cons plain stop]
    rfl

/-! ### The parts of a printed condition -/

theorem enclose_eq (needed : Bool) (t : Text) : enclose needed t = if needed then '(' :: (t ++ [')']) else t := by
  simp [enclose]

theorem print_compare (left right : Text) (op : CompareOp) :
    print (.compare left op right) = quote left ++ ' ' :: (op.text ++ ' ' :: quote right) := by
  rw [print.eq_def]
  simp

theorem print_fileExists (raw : Text) : print (.fileExists raw) = "Exists".toList ++ '(' :: (quote raw ++ [')']) := by
  rw [print.eq_def]
  simp

theorem print_hasTrailingSlash (raw : Text) :
    print (.hasTrailingSlash raw) = "HasTrailingSlash".toList ++ '(' :: (quote raw ++ [')']) := by
  rw [print.eq_def]
  simp

theorem print_not (inner : Condition) : print (.not inner) = '!' :: enclose (inner.tightness < 2) inner.print := rfl

theorem print_and (left right : Condition) : print (.and left right) = enclose (left.tightness < 1) left.print ++
    ' ' :: ("and".toList ++ ' ' :: enclose (right.tightness < 2) right.print) := by
  rw [print.eq_def]
  simp

theorem print_or (left right : Condition) : print (.or left right) = left.print ++
    ' ' :: ("or".toList ++ ' ' :: enclose (right.tightness < 1) right.print) := by
  rw [print.eq_def]
  simp

/-! ### The whole -/

theorem spells_enclose (needed : Bool) (inner : Spells t ts) : Spells (enclose needed t) (encloseTokens needed ts) := by
  rw [enclose_eq]
  cases needed with
  | true => exact spells_openParen (inner.append spells_closeParen)
  | false => exact inner

/-- A text that an exclamation mark may stand before. -/
def IsNegatable (t : Text) : Prop := ∃ d r, t = d :: r ∧ d ≠ '='

theorem IsNegatable.append (h : IsNegatable a) (b : Text) : IsNegatable (a ++ b) := by
  obtain ⟨d, r, rfl, apart⟩ := h
  exact ⟨d, r ++ b, rfl, apart⟩

theorem isNegatable_quote (raw : Text) : IsNegatable (quote raw) := ⟨_, _, rfl, by decide⟩

theorem IsNegatable.enclose (h : IsNegatable t) (needed : Bool) : IsNegatable (enclose needed t) := by
  rw [enclose_eq]
  cases needed with
  | true => exact ⟨_, _, rfl, by decide⟩
  | false => exact h

theorem isNegatable_print (c : Condition) : IsNegatable c.print := by
  induction c with
  | value raw => exact isNegatable_quote raw
  | compare left op right => rw [print_compare]; exact (isNegatable_quote left).append _
  | fileExists raw => rw [print_fileExists]; exact ⟨_, _, rfl, by decide⟩
  | hasTrailingSlash raw => rw [print_hasTrailingSlash]; exact ⟨_, _, rfl, by decide⟩
  | not inner => exact ⟨_, _, print_not inner, by decide⟩
  | and left right ih => rw [print_and]; exact (ih.enclose _).append _
  | or left right ih => rw [print_or]; exact ih.append _

/-- **A printed condition is cut** into the tokens that its parts were written for. -/
theorem spells_print {c : Condition} (quotable : c.IsQuotable) : Spells c.print c.tokens := by
  induction c with
  | value raw => exact spells_quote (quotable raw (by simp [operands]))
  | compare left op right =>
    have before := spells_quote (quotable left (by simp [operands]))
    have after := spells_quote (quotable right (by simp [operands]))
    rw [print_compare]
    exact before.append (spells_op op after).blank
  | fileExists raw =>
    have operand := spells_quote (quotable raw (by simp [operands]))
    rw [print_fileExists]
    exact spells_word (by decide) rfl (spells_openParen (operand.append spells_closeParen))
  | hasTrailingSlash raw =>
    have operand := spells_quote (quotable raw (by simp [operands]))
    rw [print_hasTrailingSlash]
    exact spells_word (by decide) rfl (spells_openParen (operand.append spells_closeParen))
  | not inner ih =>
    obtain ⟨d, r, whole, apart⟩ := (isNegatable_print inner).enclose (inner.tightness < 2)
    have more := spells_enclose (inner.tightness < 2) (ih quotable)
    rw [print_not, whole]
    exact spells_bang apart (whole ▸ more)
  | and left right ihLeft ihRight =>
    have inLeft := ihLeft fun raw mem => quotable raw (List.mem_append_left _ mem)
    have inRight := ihRight fun raw mem => quotable raw (List.mem_append_right _ mem)
    have after := spells_enclose (right.tightness < 2) inRight
    rw [print_and]
    exact (spells_enclose _ inLeft).append (spells_word (by decide) rfl after.blank).blank
  | or left right ihLeft ihRight =>
    have inLeft := ihLeft fun raw mem => quotable raw (List.mem_append_left _ mem)
    have inRight := ihRight fun raw mem => quotable raw (List.mem_append_right _ mem)
    have after := spells_enclose (right.tightness < 1) inRight
    rw [print_or]
    exact inLeft.append (spells_word (by decide) rfl after.blank).blank

end Spelling

/-! ## Reading the tokens -/

/-- A reader reads `c` and leaves the tokens `rest`. -/
def Gives {shorter : Condition × List Token → Prop}
    (reading : Except ConditionError { r : Condition × List Token // shorter r }) (c : Condition) (rest : List Token) :
    Prop :=
  ∃ h, reading = .ok ⟨(c, rest), h⟩

section Reading

variable {ts rest after : List Token} {c left right inner : Condition} {raw : Text}

/-! ### One rule for each way to go on -/

theorem gives_parseOr (first : Gives (parseAnd ts) left rest) (more : Gives (parseOrTail left rest) c after) :
    Gives (parseOr ts) c after := by
  obtain ⟨shorter, first⟩ := first
  obtain ⟨shorter', more⟩ := more
  refine ⟨Nat.lt_of_le_of_lt shorter' shorter, ?_⟩
  rw [parseOr, first]
  simp only [more]

theorem gives_parseOrTail_or (next : Gives (parseAnd ts) right rest)
    (more : Gives (parseOrTail (.or left right) rest) c after) :
    Gives (parseOrTail left (.word "or" :: ts)) c after := by
  obtain ⟨shorter, next⟩ := next
  obtain ⟨shorter', more⟩ := more
  refine ⟨Nat.le_succ_of_le (Nat.le_of_lt (Nat.lt_of_le_of_lt shorter' shorter)), ?_⟩
  have isOr : (Token.word "or").isWord "or" := rfl
  rw [parseOrTail, if_pos isOr, next]
  simp only [more]

theorem gives_parseOrTail_stop (stops : ∀ token ∈ ts.head?, ¬ token.isWord "or") : Gives (parseOrTail c ts) c ts := by
  cases ts with
  | nil => exact ⟨Nat.le_refl _, by rw [parseOrTail]⟩
  | cons token ts => exact ⟨Nat.le_refl _, by rw [parseOrTail, if_neg (stops token rfl)]⟩

theorem gives_parseAnd (first : Gives (parseUnary ts) left rest) (more : Gives (parseAndTail left rest) c after) :
    Gives (parseAnd ts) c after := by
  obtain ⟨shorter, first⟩ := first
  obtain ⟨shorter', more⟩ := more
  refine ⟨Nat.lt_of_le_of_lt shorter' shorter, ?_⟩
  rw [parseAnd, first]
  simp only [more]

theorem gives_parseAndTail_and (next : Gives (parseUnary ts) right rest)
    (more : Gives (parseAndTail (.and left right) rest) c after) :
    Gives (parseAndTail left (.word "and" :: ts)) c after := by
  obtain ⟨shorter, next⟩ := next
  obtain ⟨shorter', more⟩ := more
  refine ⟨Nat.le_succ_of_le (Nat.le_of_lt (Nat.lt_of_le_of_lt shorter' shorter)), ?_⟩
  have isAnd : (Token.word "and").isWord "and" := rfl
  rw [parseAndTail, if_pos isAnd, next]
  simp only [more]

theorem gives_parseAndTail_stop (stops : ∀ token ∈ ts.head?, ¬ token.isWord "and") :
    Gives (parseAndTail c ts) c ts := by
  cases ts with
  | nil => exact ⟨Nat.le_refl _, by rw [parseAndTail]⟩
  | cons token ts => exact ⟨Nat.le_refl _, by rw [parseAndTail, if_neg (stops token rfl)]⟩

theorem gives_parseUnary_bang (next : Gives (parseUnary ts) inner rest) :
    Gives (parseUnary (.bang :: ts)) (.not inner) rest := by
  obtain ⟨shorter, next⟩ := next
  refine ⟨Nat.lt_succ_of_lt shorter, ?_⟩
  rw [parseUnary, next]

theorem gives_parseUnary_openParen (next : Gives (parseOr ts) inner (.closeParen :: rest)) :
    Gives (parseUnary (.openParen :: ts)) inner rest := by
  obtain ⟨shorter, next⟩ := next
  refine ⟨Nat.lt_succ_of_lt (Nat.lt_trans (Nat.lt_succ_self _) shorter), ?_⟩
  rw [parseUnary, parsePrimary, next]
  · rfl
  · rintro _ ⟨⟩

theorem gives_parseUnary_call {name : Text} {c : Condition} (known : function name raw = .ok c) :
    Gives (parseUnary (.word name :: .openParen :: .quoted raw :: .closeParen :: rest)) c rest := by
  refine ⟨by simp only [List.length_cons]; omega, ?_⟩
  have call : parseCall name (.quoted raw :: .closeParen :: rest) =
      .ok ⟨(c, rest), by simp only [List.length_cons]; omega⟩ := by
    simp only [parseCall, parseOperand, Token.operand?, expectClose, known]
    rfl
  rw [parseUnary, parsePrimary, call]
  rintro _ ⟨⟩

theorem gives_parseUnary_operand (more : Gives (parseComparison raw ts) c rest) :
    Gives (parseUnary (.quoted raw :: ts)) c rest := by
  obtain ⟨shorter, more⟩ := more
  refine ⟨Nat.lt_succ_of_le shorter, ?_⟩
  rw [parseUnary, parsePrimary]
  · simp only [Token.operand?, more]
  · rintro ⟨⟩
  · rintro _ _ ⟨⟩
  · rintro _ ⟨⟩

theorem gives_parseUnary_compare (left right : Text) (op : CompareOp) :
    Gives (parseUnary (.quoted left :: .op op :: .quoted right :: rest)) (.compare left op right) rest := by
  refine gives_parseUnary_operand ⟨by simp only [List.length_cons]; omega, ?_⟩
  simp only [parseComparison, parseOperand, Token.operand?]

theorem gives_parseUnary_value (stops : ∀ op, ts.head? ≠ some (.op op)) :
    Gives (parseUnary (.quoted raw :: ts)) (.value raw) ts := by
  refine gives_parseUnary_operand ⟨Nat.le_refl _, ?_⟩
  unfold parseComparison
  split
  · rename_i op rest
    exact absurd rfl (stops op)
  · rfl

/-! ### At every level of tightness -/

/-- No comparison follows, so that an operand stands alone. -/
def NoComparison (rest : List Token) : Prop := ∀ op, rest.head? ≠ some (.op op)

/-- A condition is read off its tokens at each level. At the levels of `and` and `or` what follows may still belong to
the condition that is read, so that the rest of the reading is left open. -/
structure ReadsBack (c : Condition) : Prop where
  unary : ∀ rest, NoComparison rest → Gives (parseUnary (encloseTokens (c.tightness < 2) c.tokens ++ rest)) c rest
  conjunction : ∀ {rest whole after}, NoComparison rest → Gives (parseAndTail c rest) whole after →
    Gives (parseAnd (encloseTokens (c.tightness < 1) c.tokens ++ rest)) whole after
  disjunction : ∀ {rest whole after}, NoComparison rest → (∀ token ∈ rest.head?, ¬ token.isWord "and") →
    Gives (parseOrTail c rest) whole after → Gives (parseOr (c.tokens ++ rest)) whole after

/-- In parentheses a condition is read at every level. -/
theorem gives_parseUnary_enclosed
    (disjunction : Gives (parseOr (c.tokens ++ .closeParen :: rest)) c (.closeParen :: rest)) :
    Gives (parseUnary (encloseTokens true c.tokens ++ rest)) c rest := by
  have cut : encloseTokens true c.tokens ++ rest = .openParen :: (c.tokens ++ .closeParen :: rest) := by
    simp [encloseTokens]
  rw [cut]
  exact gives_parseUnary_openParen disjunction

theorem gives_parseOr_closed (disjunction : ∀ {rest whole after}, NoComparison rest →
    (∀ token ∈ rest.head?, ¬ token.isWord "and") → Gives (parseOrTail c rest) whole after →
      Gives (parseOr (c.tokens ++ rest)) whole after) (rest : List Token) :
    Gives (parseOr (c.tokens ++ .closeParen :: rest)) c (.closeParen :: rest) :=
  disjunction nofun (by simp [Token.isWord]) (gives_parseOrTail_stop (by simp [Token.isWord]))

/-- A condition that holds together most tightly is read back once it is read without parentheses. -/
theorem readsBack_of_unary (tight : c.tightness = 2)
    (unary : ∀ rest, NoComparison rest → Gives (parseUnary (c.tokens ++ rest)) c rest) : ReadsBack c where
  unary := by
    intro rest apart
    rw [tight]
    exact unary rest apart
  conjunction := by
    intro rest whole after apart more
    rw [tight]
    exact gives_parseAnd (unary rest apart) more
  disjunction := by
    intro rest whole after apart noAnd more
    exact gives_parseOr (gives_parseAnd (unary rest apart) (gives_parseAndTail_stop noAnd)) more

theorem readsBack_and (ihLeft : ReadsBack left) (ihRight : ReadsBack right) : ReadsBack (.and left right) := by
  have conjunction {rest whole after} (apart : NoComparison rest)
      (more : Gives (parseAndTail (.and left right) rest) whole after) :
      Gives (parseAnd ((Condition.and left right).tokens ++ rest)) whole after := by
    have cut : (Condition.and left right).tokens ++ rest = encloseTokens (left.tightness < 1) left.tokens ++
        .word "and" :: (encloseTokens (right.tightness < 2) right.tokens ++ rest) := by simp [tokens]
    rw [cut]
    exact ihLeft.conjunction nofun (gives_parseAndTail_and (ihRight.unary rest apart) more)
  have disjunction {rest whole after} (apart : NoComparison rest) (noAnd : ∀ token ∈ rest.head?, ¬ token.isWord "and")
      (more : Gives (parseOrTail (.and left right) rest) whole after) :
      Gives (parseOr ((Condition.and left right).tokens ++ rest)) whole after :=
    gives_parseOr (conjunction apart (gives_parseAndTail_stop noAnd)) more
  exact {
    unary := fun rest _ => gives_parseUnary_enclosed (gives_parseOr_closed disjunction rest)
    conjunction
    disjunction }

theorem readsBack_or (ihLeft : ReadsBack left) (ihRight : ReadsBack right) : ReadsBack (.or left right) := by
  have disjunction {rest whole after} (apart : NoComparison rest) (noAnd : ∀ token ∈ rest.head?, ¬ token.isWord "and")
      (more : Gives (parseOrTail (.or left right) rest) whole after) :
      Gives (parseOr ((Condition.or left right).tokens ++ rest)) whole after := by
    have cut : (Condition.or left right).tokens ++ rest = left.tokens ++
        .word "or" :: (encloseTokens (right.tightness < 1) right.tokens ++ rest) := by simp [tokens]
    have next := ihRight.conjunction apart (gives_parseAndTail_stop noAnd)
    have noAnd' : ∀ token ∈ some (Token.word "or"), ¬ token.isWord "and" := by
      rintro _ ⟨⟩
      decide
    rw [cut]
    exact ihLeft.disjunction nofun noAnd' (gives_parseOrTail_or next more)
  have unary (rest : List Token) := gives_parseUnary_enclosed (gives_parseOr_closed disjunction rest)
  exact {
    unary := fun rest _ => unary rest
    conjunction := fun _ more => gives_parseAnd (unary _) more
    disjunction }

/-- **A condition is read off its tokens** at every level of tightness. -/
theorem readsBack (c : Condition) : ReadsBack c := by
  induction c with
  | value raw => exact readsBack_of_unary rfl fun rest apart => gives_parseUnary_value apart
  | compare left op right => exact readsBack_of_unary rfl fun rest _ => gives_parseUnary_compare left right op
  | fileExists raw => exact readsBack_of_unary rfl fun rest _ => gives_parseUnary_call rfl
  | hasTrailingSlash raw => exact readsBack_of_unary rfl fun rest _ => gives_parseUnary_call rfl
  | not inner ih => exact readsBack_of_unary rfl fun rest apart => gives_parseUnary_bang (ih.unary rest apart)
  | and left right ihLeft ihRight => exact readsBack_and ihLeft ihRight
  | or left right ihLeft ihRight => exact readsBack_or ihLeft ihRight

end Reading

/-- **A printed condition is read back**, whatever its operands are, as long as they have no single quote. -/
theorem parse_print {c : Condition} (quotable : c.IsQuotable) : parse c.print = .ok c := by
  have cut : tokenize c.print = .ok c.tokens := by
    obtain ⟨offset, cut⟩ := spells_print quotable 0 []
    rw [List.append_nil, tokenizeFrom] at cut
    rw [tokenize, cut]
    exact congrArg Except.ok (List.append_nil _)
  have stop : Gives (parseOrTail c []) c [] := gives_parseOrTail_stop (by simp)
  have read := (readsBack c).disjunction (by simp [NoComparison]) (by simp) stop
  rw [List.append_nil] at read
  obtain ⟨_, read⟩ := read
  rw [parse, cut]
  simp only [read]

/-- Operands that look like words, calls, comparisons and references, under nested negations and parentheses. -/
def tangled : Condition :=
  .and (.or (.value "or") (.not (.and (.compare "$(A)" .le " and !") (.fileExists ") == (")))) (.not (.not
    (.or (.hasTrailingSlash "%(Exists(") (.value ""))))

theorem parse_print_tangled : tangled.IsQuotable ∧
    tangled.print = "('or' or !('$(A)' <= ' and !' and Exists(') == ('))) and !!(HasTrailingSlash('%(Exists(') or '')" ∧
    parse tangled.print = .ok tangled :=
  ⟨by decide, by decide, parse_print (by decide)⟩

end SolutionGraph.Condition
