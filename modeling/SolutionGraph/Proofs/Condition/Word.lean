import SolutionGraph.Condition.Token

/-!
# Words do not cut references

A word of a condition is read before its references are replaced. Both the reader of words and `PropertyBag.expand` look for
the parenthesis that closes a reference, each with a count of its own.

* **closing**: the two counts come to the same place (`throughClose_succ`), and what a reference is read up to does not
  change with what follows it (`untilClose_cut`);
* **expansion**: so it makes no difference whether a text is expanded before or after a word is read off it
  (`expand_readWord`).
-/

namespace SolutionGraph

/-! ## References -/

namespace PropertyBag

variable {c : Char} {t w : Text}

theorem untilClose_close (depth : Nat) (t : Text) :
    untilClose (depth + 1) (')' :: t) = (')' :: (untilClose depth t).1, (untilClose depth t).2) := rfl

theorem untilClose_of_ne (other : c ≠ ')') (depth : Nat) (t : Text) : untilClose depth (c :: t) =
    (c :: (untilClose (if c = '(' then depth + 1 else depth) t).1,
      (untilClose (if c = '(' then depth + 1 else depth) t).2) := by
  rw [untilClose.eq_def]
  simp only [if_neg other]

/-- **What follows a reference does not change where it ends**: its body and its closing parenthesis are read in the same
way before any other text. A reference that is not closed has nothing behind it. -/
theorem untilClose_cut (depth : Nat) (t : Text) (unclosed : (untilClose depth t).2 = [] → w = []) :
    untilClose depth ((untilClose depth t).1 ++ ((untilClose depth t).2.take 1 ++ w)) =
      ((untilClose depth t).1, (untilClose depth t).2.take 1 ++ w) := by
  induction t generalizing depth with
  | nil =>
    obtain rfl := unclosed rfl
    rfl
  | cons c t ih =>
    by_cases closing : c = ')'
    · subst closing
      cases depth with
      | zero => rfl
      | succ depth =>
        rw [untilClose_close] at unclosed ⊢
        rw [List.cons_append, untilClose_close, ih depth unclosed]
    · rw [untilClose_of_ne closing] at unclosed ⊢
      rw [List.cons_append, untilClose_of_ne closing, ih _ unclosed]

theorem expand_reference (bag : PropertyBag) (sigil : isSigil c) (t : Text) :
    bag.expand (c :: '(' :: t) = bag.reference c (untilClose 0 t).1 ++ bag.expand ((untilClose 0 t).2.drop 1) := by
  rw [expand, sigil]
  rfl

/-- A character that starts no reference stays. -/
theorem expand_cons (bag : PropertyBag) (plain : isSigil c → '(' ∉ t.head?) : bag.expand (c :: t) = c :: bag.expand t := by
  cases t with
  | nil => rw [expand, expand]
  | cons d t =>
    rw [expand, if_neg]
    intro starts
    obtain ⟨sigil, opened⟩ := Bool.and_eq_true_iff.1 starts
    exact plain sigil (congrArg some (of_decide_eq_true opened))

end PropertyBag

namespace Condition

open PropertyBag (isSigil untilClose untilClose_close untilClose_of_ne untilClose_cut expand_reference expand_cons)

/-! ## Closing -/

/-- **Both counts find the same parenthesis**: one of them is ahead by the parenthesis that opens the reference, and takes
the closing one with it. -/
theorem throughClose_succ (depth : Nat) (t : Text) : throughClose (depth + 1) t =
    ((untilClose depth t).1 ++ (untilClose depth t).2.take 1, (untilClose depth t).2.drop 1) := by
  induction t generalizing depth with
  | nil => rfl
  | cons c t ih =>
    by_cases closing : c = ')'
    · subst closing
      cases depth with
      | zero => rfl
      | succ depth =>
        rw [throughClose, if_neg (by decide), if_pos rfl, if_neg (by omega), Nat.add_sub_cancel, ih, untilClose_close]
        rfl
    · rw [throughClose, untilClose_of_ne closing]
      by_cases opening : c = '('
      · rw [if_pos opening, if_pos opening, ih]
        rfl
      · rw [if_neg opening, if_neg closing, if_neg opening, ih]
        rfl

theorem throughClose_reference (t : Text) : throughClose 0 ('(' :: t) =
    ('(' :: ((untilClose 0 t).1 ++ (untilClose 0 t).2.take 1), (untilClose 0 t).2.drop 1) := by
  rw [throughClose, if_pos rfl, throughClose_succ]

/-! ## Expansion -/

/-- A reference that a word takes whole is expanded in the word as it is in the text. -/
theorem expand_taken (bag : PropertyBag) {c : Char} (sigil : isSigil c) (t : Text) {word : Text}
    (unclosed : (throughClose 0 ('(' :: t)).2 = [] → word = []) :
    bag.expand (c :: ((throughClose 0 ('(' :: t)).1 ++ word)) = bag.reference c (untilClose 0 t).1 ++ bag.expand word := by
  rw [throughClose_reference] at unclosed ⊢
  rw [List.cons_append, List.append_assoc, expand_reference bag sigil, untilClose_cut]
  · cases cut : (untilClose 0 t).2 with
    | nil =>
      rw [unclosed (by rw [cut]; rfl)]
      rfl
    | cons d after => rfl
  · intro nothing
    exact unclosed (by rw [nothing]; rfl)

/-- **Words do not cut references.** -/
theorem expand_append_readWord (bag : PropertyBag) (t : Text) :
    bag.expand (readWord t).1 ++ bag.expand (readWord t).2 = bag.expand t := by
  fun_induction readWord t with
  | case1 => simp only [PropertyBag.expand, List.append_nil]
  | case2 c ends => simp only [PropertyBag.expand, List.nil_append]
  | case3 c inside => simp only [PropertyBag.expand, List.append_nil]
  | case4 c d t starts cut more ih =>
    obtain ⟨sigil, rfl⟩ : isSigil c = true ∧ d = '(' := by simpa using starts
    have unclosed : cut.2 = [] → more.1 = [] := by
      intro nothing
      have whole : more.1 ++ more.2 = cut.2 := readWord_append cut.2
      exact (List.append_eq_nil_iff.1 (whole.trans nothing)).1
    have after : cut.2 = (untilClose 0 t).2.drop 1 := congrArg Prod.snd (throughClose_reference t)
    rw [expand_taken bag sigil t unclosed, expand_reference bag sigil, List.append_assoc, ← after]
    exact congrArg _ ih
  | case5 c d t plain ends => simp only [PropertyBag.expand, List.nil_append]
  | case6 c d t plain inside more ih =>
    have whole : more.1 ++ more.2 = d :: t := readWord_append (d :: t)
    have kept : isSigil c → '(' ∉ (d :: t).head? := by
      rintro sigil ⟨⟩
      exact plain (by simp [sigil])
    have kept' : isSigil c → '(' ∉ more.1.head? := by
      intro sigil opened
      refine kept sigil ?_
      obtain ⟨word, same⟩ := List.head?_eq_some_iff.1 opened
      rw [← whole, same]
      rfl
    rw [expand_cons bag kept, expand_cons bag kept', List.cons_append]
    exact congrArg _ ih

/-- **Words and references end in the same places**: from any place on, a text is a word and what the word leaves, and its
expansion is that of the word followed by that of the rest. For the word takes every reference through the very parenthesis
that expansion takes to be its end, or through the end of the text where there is no such parenthesis. -/
theorem expand_readWord (bag : PropertyBag) (chars : Text) (start : Nat) :
    (∃ word rest, readWord (chars.drop start) = (word, rest) ∧ word ++ rest = chars.drop start ∧
      bag.expand (word ++ rest) = bag.expand word ++ bag.expand rest) ∧
    ∀ t, throughClose 0 ('(' :: t) =
      ('(' :: ((untilClose 0 t).1 ++ (untilClose 0 t).2.take 1), (untilClose 0 t).2.drop 1) := by
  have whole : (readWord (chars.drop start)).1 ++ (readWord (chars.drop start)).2 = chars.drop start :=
    readWord_append (chars.drop start)
  refine ⟨⟨_, _, rfl, whole, ?_⟩, throughClose_reference⟩
  rw [whole, expand_append_readWord]

/-- Parentheses, quotes and blanks in a reference belong to the word. -/
example : readWord "a$(b (c) ' d)e f" = ("a$(b (c) ' d)e".toList, " f".toList) := by decide +kernel

end Condition

end SolutionGraph
