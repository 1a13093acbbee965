import Mathlib.Data.List.DropRight
import Mathlib.Data.List.GetD
import Mathlib.Data.Nat.Find
import Mathlib.Order.PiLex
import SolutionGraph.Condition.Evaluate
import SolutionGraph.Proofs.Path.Below
import SolutionGraph.Proofs.Text.Lines

/-!
# Versions are totally preordered

A version is a list of numbers with dots between them (`IsVersion`). Two versions are compared by the first place where
their numbers differ, with zeros behind the last number of either (`Before`).

* **reading**: exactly the texts that are versions have numbers (`versionNumbers?_eq_some_iff`), and a zero more in the
  text is a zero more at the end of the numbers (`versionNumbers?_append_zero`);
* **keys**: behind the first number, a key does not end in a zero (`dropTrailingZeros_cons`, `IsTight`). So where one of
  two keys ends and the other one goes on, a number other than zero is still to come, and `compareNumbers` tells the same
  order of the keys as `Before` does of all numbers (`compareNumbers_dropTrailingZeros`).
-/

namespace SolutionGraph.Condition

/-! ## Versions -/

/-- A text writes a number of 64 bits: decimal digits, with at most one plus sign in front. -/
def IsNumeral (t : Text) (n : Nat) : Prop :=
  ∃ digits, (t = digits ∨ t = '+' :: digits) ∧ digits ≠ [] ∧ (∀ c ∈ digits, Text.isDigit c) ∧
    Text.digitsValue digits = n ∧ n < versionBound

/-- A text is a version with the given numbers: blanks aside, numerals with a dot between each two. -/
def IsVersion (t : Text) (ns : List Nat) : Prop :=
  ∃ parts, parts ≠ [] ∧ List.Forall₂ IsNumeral parts ns ∧ Text.trim t = Text.join "." parts

/-- A list of numbers comes before another one: its number is smaller at the first place where they differ. There are
zeros behind the last number. -/
def Before (ns ms : List Nat) : Prop := ∃ i, (∀ j < i, ns.getD j 0 = ms.getD j 0) ∧ ns.getD i 0 < ms.getD i 0

instance (ns ms : List Nat) : Decidable (Before ns ms) :=
  decidable_of_iff (∃ i < ms.length, (∀ j < i, ns.getD j 0 = ms.getD j 0) ∧ ns.getD i 0 < ms.getD i 0) <| by
    refine ⟨fun ⟨i, _, first⟩ => ⟨i, first⟩, fun ⟨i, same, less⟩ => ⟨i, ?_, same, less⟩⟩
    -- behind the last number there is nothing to be smaller than
    by_contra behind
    rw [List.getD_eq_default _ _ (not_lt.1 behind)] at less
    exact absurd less (Nat.not_lt_zero _)

section Reading

variable {t : Text} {n : Nat} {ns : List Nat}

/-- The digits of a numeral are what is left of it without a plus sign. -/
theorem number?_eq_some_iff : Text.number? versionBound t = some n ↔ IsNumeral t n := by
  have read (digits : Text) : (if digits.isEmpty || !digits.all Text.isDigit then none
      else if Text.digitsValue digits < versionBound then some (Text.digitsValue digits) else none) = some n ↔
        digits ≠ [] ∧ (∀ c ∈ digits, Text.isDigit c) ∧ Text.digitsValue digits = n ∧ n < versionBound := by
    rw [← List.all_eq_true, ← List.isEmpty_eq_false_iff]
    cases digits.isEmpty <;> cases digits.all Text.isDigit <;> simp
    grind
  have noSign {digits : Text} (allDigits : ∀ c ∈ '+' :: digits, Text.isDigit c) : False :=
    absurd (allDigits '+' List.mem_cons_self) (by decide)
  unfold Text.number?
  split
  · rename_i rest
    rw [read]
    constructor
    · exact fun number => ⟨rest, .inr rfl, number⟩
    · rintro ⟨digits, rfl | written, number⟩
      · exact (noSign number.2.1).elim
      · cases written
        exact number
  · rename_i unsigned
    rw [read]
    constructor
    · exact fun number => ⟨t, .inl rfl, number⟩
    · rintro ⟨digits, rfl | rfl, number⟩
      · exact number
      · exact absurd rfl (unsigned digits)

theorem IsNumeral.not_mem_dot (numeral : IsNumeral t n) : '.' ∉ t := by
  obtain ⟨digits, written, _, allDigits, _⟩ := numeral
  have clear : '.' ∉ digits := fun mem => absurd (allDigits '.' mem) (by decide)
  rcases written with rfl | rfl
  · exact clear
  · simp [clear]

/-- Several options are there together if each one is. -/
theorem mapM_eq_some_iff {α β : Type} {f : α → Option β} {xs : List α} {ys : List β} :
    xs.mapM f = some ys ↔ List.Forall₂ (fun x y => f x = some y) xs ys := by
  induction xs generalizing ys with
  | nil => simp [eq_comm]
  | cons x xs ih =>
    simp only [List.mapM_cons, bind, pure, Option.bind_eq_some_iff, ih, List.forall₂_cons_left_iff, Option.some.injEq]
    grind

/-- **Exactly versions have numbers.** -/
theorem versionNumbers?_eq_some_iff : versionNumbers? t = some ns ↔ IsVersion t ns := by
  unfold versionNumbers? IsVersion
  rw [mapM_eq_some_iff]
  simp only [number?_eq_some_iff]
  constructor
  · intro numerals
    exact ⟨_, Text.splitOn_ne_nil _ _, numerals, (Text.join_splitOn '.' _).symm⟩
  · rintro ⟨parts, some, numerals, written⟩
    have clear : ∀ part ∈ parts, '.' ∉ part := by
      clear some written
      induction numerals with
      | nil => nofun
      | cons numeral _ ih => exact List.forall_mem_cons.2 ⟨numeral.not_mem_dot, ih⟩
    have cut : Text.splitOn '.' (Text.trim t) = parts := by
      rw [written]
      exact Text.splitOn_join clear some
    rwa [cut]

/-- There is nothing left to trim at the start of a trimmed text. -/
theorem trimStart_trim (t : Text) : Text.trimStart (Text.trim t) = Text.trim t := by
  rcases Text.trimStart_cases t with blank | ⟨a, c, rest, rfl, blank, solid⟩
  · rw [Text.trim, Text.trimStart_of_blank blank]
    rfl
  · rw [Text.trim_append_cons solid, Text.trimStart_of_blank blank]
    simp [Text.trimStart, solid]

/-- A zero more in the text is a zero more at the end of the numbers. -/
theorem versionNumbers?_append_zero (t : Text) :
    versionNumbers? (Text.trim t ++ ".0") = (versionNumbers? t).map (· ++ [0]) := by
  have trimmed : Text.trim (Text.trim t ++ ".0") = Text.trim t ++ '.' :: ['0'] := by
    have cut := Text.trim_append_cons (a := Text.trim t) (b := ['0']) (c := '.') rfl
    rw [trimStart_trim] at cut
    exact cut
  have zero : Text.number? versionBound ['0'] = some 0 := rfl
  rw [versionNumbers?, trimmed, Text.splitOn_append, List.mapM_append, versionNumbers?]
  cases (Text.splitOn '.' (Text.trim t)).mapM (Text.number? versionBound) with
  | none => rfl
  | some ns => simp [Text.splitOn, zero]

end Reading

/-! ## Comparing keys -/

/-- A list of numbers does not end in a zero. -/
def IsTight (ns : List Nat) : Prop := ns.getLast? ≠ some 0

section Keys

variable {ns ms : List Nat} {n m : Nat}

theorem before_cons_cons : Before (n :: ns) (m :: ms) ↔ n < m ∨ n = m ∧ Before ns ms := by
  constructor
  · rintro ⟨i, same, less⟩
    cases i with
    | zero => exact .inl less
    | succ i =>
      refine .inr ⟨same 0 i.succ_pos, i, fun j lower => ?_, less⟩
      exact same (j + 1) (Nat.succ_lt_succ lower)
  · rintro (less | ⟨rfl, i, same, less⟩)
    · exact ⟨0, nofun, less⟩
    · refine ⟨i + 1, fun j lower => ?_, less⟩
      cases j with
      | zero => rfl
      | succ j => exact same j (Nat.lt_of_succ_lt_succ lower)

theorem not_before_nil (ns : List Nat) : ¬ Before ns [] := by
  rintro ⟨i, _, less⟩
  exact Nat.not_lt_zero _ less

/-- Nothing comes before a list that does not end in a zero. -/
theorem before_nil_of_isTight (tight : IsTight (m :: ms)) : Before [] (m :: ms) := by
  have some : ∃ i, 0 < (m :: ms).getD i 0 := by
    refine ⟨ms.length, Nat.pos_of_ne_zero fun zero => tight ?_⟩
    rw [List.getLast?_eq_getElem?, ← zero]
    simp
  refine ⟨Nat.find some, fun j lower => ?_, Nat.find_spec some⟩
  exact (Nat.eq_zero_of_not_pos (Nat.find_min some lower)).symm

theorem IsTight.tail (tight : IsTight (n :: ns)) : IsTight ns := by
  cases ns with
  | nil => exact nofun
  | cons m ns => rwa [IsTight, List.getLast?_cons_cons] at tight

/-- **Without zeros at the end, lists are compared as if they went on with zeros.** -/
theorem compareNumbers_of_isTight (tight : IsTight ns) (tight' : IsTight ms) :
    (compareNumbers ns ms = .lt ↔ Before ns ms) ∧ (compareNumbers ns ms = .gt ↔ Before ms ns) := by
  fun_induction compareNumbers ns ms with
  | case1 => simp [not_before_nil]
  | case2 m ms => simp [not_before_nil, before_nil_of_isTight tight']
  | case3 n ns => simp [not_before_nil, before_nil_of_isTight tight]
  | case4 n ns m ms less => simp [before_cons_cons, less, less.not_gt, less.ne']
  | case5 n ns m ms notLess less => simp [before_cons_cons, notLess, less, less.ne']
  | case6 n ns m ms notLess notMore ih =>
    obtain rfl : n = m := le_antisymm (not_lt.1 notMore) (not_lt.1 notLess)
    simpa [before_cons_cons] using ih tight.tail tight'.tail

/-- The first number of a key stays, and all zeros at the end behind it are dropped. -/
theorem dropTrailingZeros_cons (n : Nat) (ns : List Nat) :
    dropTrailingZeros (n :: ns) = n :: ns.rdropWhile (· == 0) := by
  unfold dropTrailingZeros List.rdropWhile
  rw [List.reverse_cons, List.dropWhile_append]
  cases kept : ns.reverse.dropWhile (· == 0) with
  | nil =>
    by_cases zero : n = 0
    · simp [zero]
    · simp [zero]
  | cons m rest => simp

theorem isTight_rdropWhile (ns : List Nat) : IsTight (ns.rdropWhile (· == 0)) := by
  intro last
  have some : ns.rdropWhile (· == 0) ≠ [] := by
    rintro none
    rw [none] at last
    cases last
  rw [List.getLast?_eq_some_getLast some, Option.some.injEq] at last
  exact List.rdropWhile_last_not _ _ some (beq_iff_eq.2 last)

/-- A zero at the end is what stands there anyway. -/
theorem getD_concat_zero (ns : List Nat) (i : Nat) : (ns ++ [0]).getD i 0 = ns.getD i 0 := by
  rcases lt_or_ge i ns.length with inside | behind
  · exact List.getD_append _ _ _ _ inside
  · rw [List.getD_append_right _ _ _ _ behind, List.getD_eq_default ns 0 behind]
    cases i - ns.length <;> rfl

theorem getD_rdropWhile (ns : List Nat) (i : Nat) : (ns.rdropWhile (· == 0)).getD i 0 = ns.getD i 0 := by
  induction ns using List.reverseRecOn with
  | nil => rfl
  | append_singleton ns n ih =>
    rw [List.rdropWhile_concat]
    split
    · rename_i zero
      rw [ih, eq_of_beq zero, getD_concat_zero]
    · rfl

/-- **Keys are compared as the versions that they stand for.** -/
theorem compareNumbers_dropTrailingZeros (some : ns ≠ []) (some' : ms ≠ []) :
    (compareNumbers (dropTrailingZeros ns) (dropTrailingZeros ms) = .lt ↔ Before ns ms) ∧
      (compareNumbers (dropTrailingZeros ns) (dropTrailingZeros ms) = .gt ↔ Before ms ns) := by
  obtain ⟨n, ns, rfl⟩ := List.exists_cons_of_ne_nil some
  obtain ⟨m, ms, rfl⟩ := List.exists_cons_of_ne_nil some'
  obtain ⟨behind, behind'⟩ := compareNumbers_of_isTight (isTight_rdropWhile ns) (isTight_rdropWhile ms)
  have same (as bs : List Nat) : Before (as.rdropWhile (· == 0)) (bs.rdropWhile (· == 0)) ↔ Before as bs := by
    unfold Before
    simp only [getD_rdropWhile]
  rw [same] at behind behind'
  rw [dropTrailingZeros_cons, dropTrailingZeros_cons, before_cons_cons, before_cons_cons, compareNumbers]
  split
  · rename_i less
    simp [less, less.not_gt, less.ne']
  · split
    · rename_i notLess less
      simp [notLess, less, less.ne']
    · rename_i notLess notMore
      obtain rfl : n = m := le_antisymm (not_lt.1 notMore) (not_lt.1 notLess)
      simpa using ⟨behind, behind'⟩

/-- A zero more at the end makes no other key. -/
theorem dropTrailingZeros_concat_zero (some : ns ≠ []) : dropTrailingZeros (ns ++ [0]) = dropTrailingZeros ns := by
  obtain ⟨n, ns, rfl⟩ := List.exists_cons_of_ne_nil some
  rw [List.cons_append, dropTrailingZeros_cons, List.rdropWhile_concat, if_pos (beq_self_eq_true 0), dropTrailingZeros_cons]

end Keys

/-! ## The order of versions -/

/-- The operators that compare versions. -/
def CompareOp.orders : List CompareOp := [.lt, .le, .gt, .ge]

section Order

variable {l r : Text} {op : CompareOp} {ks ns ms : List Nat}

/-- The numbers of a version as a sequence, with zeros behind the last one. -/
def padded (ns : List Nat) : Lex (ℕ → ℕ) := toLex fun i => ns.getD i 0

theorem before_iff : Before ns ms ↔ padded ns < padded ms := Iff.rfl

theorem Before.not_before (h : Before ns ms) : ¬ Before ms ns := by
  rw [before_iff] at h ⊢
  exact h.not_gt

theorem not_before_trans (h : ¬ Before ms ns) (h' : ¬ Before ks ms) : ¬ Before ks ns := by
  have first : padded ns ≤ padded ms := not_lt.1 h
  have second : padded ms ≤ padded ks := not_lt.1 h'
  exact not_lt.2 (first.trans second)

theorem IsVersion.ne_nil (version : IsVersion l ns) : ns ≠ [] := by
  obtain ⟨parts, some, numerals, _⟩ := version
  rintro rfl
  exact some (List.forall₂_nil_right_iff.1 numerals)

/-- Two versions are compared as their numbers are. -/
theorem exists_compareVersions? (left : IsVersion l ns) (right : IsVersion r ms) :
    ∃ ordering, compareVersions? l r = some ordering ∧ (ordering = .lt ↔ Before ns ms) ∧
      (ordering = .gt ↔ Before ms ns) := by
  refine ⟨_, ?_, compareNumbers_dropTrailingZeros left.ne_nil right.ne_nil⟩
  rw [compareVersions?, versionKey?, versionKey?, versionNumbers?_eq_some_iff.2 left, versionNumbers?_eq_some_iff.2 right]
  rfl

theorem compareVersions?_eq_none_iff :
    compareVersions? l r = none ↔ ¬ ((∃ ns, IsVersion l ns) ∧ ∃ ms, IsVersion r ms) := by
  simp only [← versionNumbers?_eq_some_iff, compareVersions?, versionKey?]
  cases versionNumbers? l <;> cases versionNumbers? r <;> simp [bind, pure]

theorem versionKey?_append_zero (t : Text) : versionKey? (Text.trim t ++ ".0") = versionKey? t := by
  rw [versionKey?, versionNumbers?_append_zero, versionKey?]
  cases numbers : versionNumbers? t with
  | none => rfl
  | some ns => exact congrArg some (dropTrailingZeros_concat_zero (versionNumbers?_eq_some_iff.1 numbers).ne_nil)

theorem compareTexts_eq_error_iff (order : op ∈ CompareOp.orders) :
    compareTexts l op r = .error (.notComparable l r) ↔ compareVersions? l r = none := by
  cases compared : compareVersions? l r with
  | none => cases op <;> simp_all [compareTexts, CompareOp.orders]
  | some ordering => cases op <;> simp_all [compareTexts, CompareOp.orders]

theorem toOption_compareTexts_congr {l' r' : Text} (order : op ∈ CompareOp.orders)
    (same : compareVersions? l' r' = compareVersions? l r) :
    (compareTexts l' op r').toOption = (compareTexts l op r).toOption := by
  cases op with
  | eq | ne => simp [CompareOp.orders] at order
  | lt | le | gt | ge => simp only [compareTexts, same]; cases compareVersions? l r <;> rfl

/-- Two operands are ordered as versions, whatever they are. -/
structure OrdersVersions (l r : Text) : Prop where
  /-- A comparison fails exactly if one of the operands is no version, and tells both. -/
  fails : ∀ op ∈ CompareOp.orders, compareTexts l op r = .error (.notComparable l r) ↔
    ¬ ((∃ ns, IsVersion l ns) ∧ ∃ ms, IsVersion r ms)
  /-- Else it tells how their numbers compare, with zeros behind the last one. -/
  results : ∀ {ns ms}, IsVersion l ns → IsVersion r ms →
    compareTexts l .lt r = .ok (decide (Before ns ms)) ∧ compareTexts l .gt r = .ok (decide (Before ms ns)) ∧
      compareTexts l .le r = .ok (decide (¬ Before ms ns)) ∧ compareTexts l .ge r = .ok (decide (¬ Before ns ms))
  /-- Exactly one holds of `<`, of `>`, and of `<=` and `>=` together. -/
  one : (∃ ns, IsVersion l ns) → (∃ ms, IsVersion r ms) → ∃ lt gt le ge,
    compareTexts l .lt r = .ok lt ∧ compareTexts l .gt r = .ok gt ∧ compareTexts l .le r = .ok le ∧
      compareTexts l .ge r = .ok ge ∧ [lt, gt, le && ge].count true = 1
  /-- One of them comes before the other or is equal to it. -/
  total : (∃ ns, IsVersion l ns) → (∃ ms, IsVersion r ms) →
    compareTexts l .le r = .ok true ∨ compareTexts r .le l = .ok true
  /-- `<=` is transitive. -/
  trans : ∀ m, compareTexts l .le m = .ok true → compareTexts m .le r = .ok true → compareTexts l .le r = .ok true
  /-- A zero more at the end of an operand changes no result. -/
  appended : ∀ op ∈ CompareOp.orders,
    (compareTexts (Text.trim l ++ ".0") op r).toOption = (compareTexts l op r).toOption ∧
      (compareTexts l op (Text.trim r ++ ".0")).toOption = (compareTexts l op r).toOption

theorem compareTexts_of_isVersion (left : IsVersion l ns) (right : IsVersion r ms) :
    compareTexts l .lt r = .ok (decide (Before ns ms)) ∧ compareTexts l .gt r = .ok (decide (Before ms ns)) ∧
      compareTexts l .le r = .ok (decide (¬ Before ms ns)) ∧ compareTexts l .ge r = .ok (decide (¬ Before ns ms)) := by
  obtain ⟨ordering, compared, less, more⟩ := exists_compareVersions? left right
  simp only [compareTexts, compared, ← less, ← more]
  cases ordering <;> decide

/-- A comparison that holds is one of versions. -/
theorem exists_isVersion_of_compareTexts (order : op ∈ CompareOp.orders) {holds : Bool}
    (compared : compareTexts l op r = .ok holds) : (∃ ns, IsVersion l ns) ∧ ∃ ms, IsVersion r ms := by
  by_contra none
  rw [(compareTexts_eq_error_iff order).2 (compareVersions?_eq_none_iff.2 none)] at compared
  cases compared

/-- **The order operators compare versions**, as a total preorder that ignores zeros at the end. -/
theorem compareTexts_ordersVersions (l r : Text) : OrdersVersions l r where
  fails op order := (compareTexts_eq_error_iff order).trans compareVersions?_eq_none_iff
  results := compareTexts_of_isVersion
  one := by
    rintro ⟨ns, left⟩ ⟨ms, right⟩
    obtain ⟨lt, gt, le, ge⟩ := compareTexts_of_isVersion left right
    refine ⟨_, _, _, _, lt, gt, le, ge, ?_⟩
    have apart : Before ns ms → ¬ Before ms ns := Before.not_before
    by_cases less : Before ns ms <;> by_cases more : Before ms ns <;> simp_all
  total := by
    rintro ⟨ns, left⟩ ⟨ms, right⟩
    obtain ⟨_, _, le, _⟩ := compareTexts_of_isVersion left right
    obtain ⟨_, _, le', _⟩ := compareTexts_of_isVersion right left
    rw [le, le']
    have apart : Before ns ms → ¬ Before ms ns := Before.not_before
    by_cases less : Before ns ms <;> simp_all
  trans m first second := by
    obtain ⟨⟨ns, left⟩, ks, middle⟩ := exists_isVersion_of_compareTexts (by decide) first
    obtain ⟨_, ms, right⟩ := exists_isVersion_of_compareTexts (by decide) second
    rw [(compareTexts_of_isVersion left middle).2.2.1, Except.ok.injEq, decide_eq_true_iff] at first
    rw [(compareTexts_of_isVersion middle right).2.2.1, Except.ok.injEq, decide_eq_true_iff] at second
    rw [(compareTexts_of_isVersion left right).2.2.1, Except.ok.injEq, decide_eq_true_iff]
    exact not_before_trans first second
  appended op order := by
    constructor
    · exact toOption_compareTexts_congr order (by rw [compareVersions?, versionKey?_append_zero, compareVersions?])
    · exact toOption_compareTexts_congr order (by rw [compareVersions?, versionKey?_append_zero, compareVersions?])

/-- Two versions are equal up to zeros at the end, a longer one comes later only by a number that counts, and a dot at the
end leaves a part that is no number. -/
example : compareTexts "1.0.0" .ge " +1 " = .ok true ∧ compareTexts "0" .lt "0.0.1" = .ok true ∧
    compareTexts "1." .lt "2" = .error (.notComparable "1." "2") := by
  decide

end Order

end SolutionGraph.Condition
