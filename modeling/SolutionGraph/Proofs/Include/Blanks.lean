import Mathlib.Data.List.DropRight
import SolutionGraph.Proofs.Include.Directive
import SolutionGraph.Proofs.Text.Lines

/-!
# Blanks in a logical line

A scan takes two things from the text of a logical line: what the line is to the open chains, and the include on it. How
many blanks stand in a row does not matter to either, but inside the operand of an include.

* **what a scan takes** (`effect`): two lists of lines with the same effects are reported alike (`reported_cons`);
* **literal conditions** (`literalCondition?_insert`): a run of blanks may be longer or shorter;
* **shapes** (`shape`): a text is blank, or ordinary code, or it has a hash and then perhaps a keyword and an operand;
* **blanks** (`effect_insert`): blanks beside a blank, or at either end, change nothing unless an operand is open;
* **settled texts** (`effect_append_of_isSettled`): what stands behind them does not matter.
-/

namespace SolutionGraph.Include

open Text (isBlank trim trimStart trimEnd)

/-! ## What a scan takes from a line -/

/-- What a scan takes from the text of a logical line. -/
structure Effect where
  /-- What the line is to the open chains. -/
  role : Role
  /-- The include on the line: its name and style. -/
  held : Option (Text × Style)
  deriving DecidableEq, Repr

/-- A directive without its line. -/
def Directive.target (d : Directive) : Text × Style := (d.name, d.style)

/-- What a scan takes from a preprocessor line. -/
def PreprocessorLine.effect (p : PreprocessorLine) : Effect :=
  ⟨p.role, if p.keyword = "include" then some (parseInclude 0 p.rest).target else none⟩

/-- What a scan takes from the text of a logical line. -/
def effect (t : Text) : Effect := ((preprocessorLine? t).map PreprocessorLine.effect).getD ⟨.plain, none⟩

/-- What a scan reports of lines, without the numbers of lines. -/
def reported (chains : List Chain) (lines : List LogicalLine) : List (Text × Style) :=
  (scanLines chains lines).map Directive.target

theorem LogicalLine.role_eq (line : LogicalLine) : line.role = (effect line.text).role := by
  unfold role effect
  cases preprocessorLine? line.text <;> rfl

theorem LogicalLine.target_include? (line : LogicalLine) :
    line.include?.map Directive.target = (effect line.text).held := by
  unfold include? effect PreprocessorLine.effect
  cases preprocessorLine? line.text with
  | none => rfl
  | some p =>
    simp only [Option.bind_some, Option.map_some, Option.getD_some]
    split
    · rw [parseInclude_eq]
      rfl
    · rfl

/-- **One line of a scan**, by its effect alone. -/
theorem reported_cons (chains : List Chain) (line : LogicalLine) (rest : List LogicalLine) :
    reported chains (line :: rest) = (if isActive chains then (effect line.text).held.toList else []) ++
      reported ((effect line.text).role.step chains) rest := by
  rw [reported, scanLines_cons, List.map_append, ← line.role_eq, ← line.target_include?]
  split
  · cases line.include? <;> rfl
  · rfl

/-! ## Literal conditions -/

/-- A literal condition without the blanks and parentheses around it. -/
def bareCondition (expression : Text) : Text :=
  let opened := (trim expression).dropWhile (· = '(')
  trim (opened.reverse.dropWhile (· = ')')).reverse

/-- What a bare condition says if it is literal. -/
def literalWord? (bare : Text) : Option Bool :=
  if bare = "0" ∨ bare = "false" then some false
  else if bare = "1" ∨ bare = "true" then some true
  else none

section Literal

variable {a b r x y : Text} {c : Char}

theorem literalCondition?_eq (expression : Text) :
    literalCondition? expression = literalWord? (bareCondition expression) := rfl

theorem literalCondition?_trim (expression : Text) :
    literalCondition? (trim expression) = literalCondition? expression := by
  unfold literalCondition?
  rw [Text.trim_trim]

/-- A literal condition is one word. -/
theorem literalWord?_of_blank (mem : c ∈ x) (blank : isBlank c) : literalWord? x = none := by
  have other : ∀ word : Text, word.any isBlank = false → x ≠ word := by
    rintro word solid rfl
    exact Bool.false_ne_true (solid.symm.trans (List.any_eq_true.2 ⟨c, mem, blank⟩))
  unfold literalWord?
  rw [if_neg (not_or_intro (other _ rfl) (other _ rfl)), if_neg (not_or_intro (other _ rfl) (other _ rfl))]

/-- Trimming around blanks: either one side is blank, and they are dropped, or they stay. -/
theorem trim_around (x y : Text) :
    (∃ t, ∀ r, (∀ c ∈ r, isBlank c) → trim (x ++ r ++ y) = t) ∨
      ∀ r, (∀ c ∈ r, isBlank c) → trim (x ++ r ++ y) = trimStart x ++ r ++ trimEnd y := by
  rcases Text.trimStart_cases x with left | ⟨a, c, x, rfl, -, solid⟩
  · refine .inl ⟨trim y, fun r blank => Text.trim_append_left fun c mem => ?_⟩
    exact (List.mem_append.1 mem).elim (left c) (blank c)
  rcases Text.trimStart_cases y with right | ⟨b, d, y, rfl, -, solid'⟩
  · refine .inl ⟨trim (a ++ c :: x), fun r blank => ?_⟩
    rw [List.append_assoc]
    exact Text.trim_append_right fun c mem => (List.mem_append.1 mem).elim (blank c) (right c)
  · refine .inr fun r _ => ?_
    have regroup : a ++ c :: x ++ r ++ (b ++ d :: y) = a ++ c :: (x ++ r ++ b ++ d :: y) := by
      simp only [List.append_assoc, List.cons_append]
    rw [regroup, Text.trim_append_cons solid, Text.trimEnd_append_cons solid', Text.trimStart_append_cons solid,
      Text.trimEnd_append_cons solid']
    simp only [List.append_assoc, List.cons_append]

theorem dropWhile_append_cons {p : Char → Bool} (stop : p c = false) (x y : Text) :
    (x ++ c :: y).dropWhile p = x.dropWhile p ++ c :: y := by
  rw [List.dropWhile_append, List.dropWhile_cons_of_neg (by simp [stop])]
  split
  · rename_i all
    rw [List.isEmpty_iff.1 all]
    rfl
  · rfl

theorem dropWhile_append_blanks {p : Char → Bool} (stop : ∀ c, isBlank c → p c = false) (some : r ≠ [])
    (blank : ∀ c ∈ r, isBlank c) (x y : Text) : (x ++ r ++ y).dropWhile p = x.dropWhile p ++ r ++ y := by
  cases r with
  | nil => exact absurd rfl some
  | cons c r =>
    rw [List.append_assoc, List.cons_append, dropWhile_append_cons (stop c (blank c List.mem_cons_self)),
      List.append_assoc, List.cons_append]

/-- **A run of blanks in a condition** may have any length but zero. -/
theorem literalCondition?_run (x y : Text) :
    ∃ v, ∀ r, r ≠ [] → (∀ c ∈ r, isBlank c) → literalCondition? (x ++ r ++ y) = v := by
  rcases trim_around x y with ⟨t, same⟩ | around
  · refine ⟨literalCondition? t, fun r _ blank => ?_⟩
    rw [← literalCondition?_trim, same r blank]
  generalize opened : (trimStart x).dropWhile (· = '(') = x'
  generalize closed : ((trimEnd y).reverse.dropWhile (· = ')')).reverse = y'
  have bare : ∀ r, r ≠ [] → (∀ c ∈ r, isBlank c) → bareCondition (x ++ r ++ y) = trim (x' ++ r ++ y') := by
    intro r some blank
    have blank' : ∀ c ∈ r.reverse, isBlank c := fun c mem => blank c (List.mem_reverse.1 mem)
    have noParenthesis : ∀ d : Char, isBlank d = false → ∀ c, isBlank c → decide (c = d) = false := by
      rintro d solid c blank
      refine decide_eq_false ?_
      rintro rfl
      exact Bool.false_ne_true (solid.symm.trans blank)
    have turned : (x' ++ r ++ trimEnd y).reverse = (trimEnd y).reverse ++ r.reverse ++ x'.reverse := by simp
    rw [bareCondition, around r blank, dropWhile_append_blanks (noParenthesis '(' rfl) some blank, opened, turned,
      dropWhile_append_blanks (noParenthesis ')' rfl) (by simpa using some) blank', ← closed]
    simp
  rcases trim_around x' y' with ⟨t, same⟩ | around'
  · refine ⟨literalWord? t, fun r some blank => ?_⟩
    rw [literalCondition?_eq, bare r some blank, same r blank]
  · refine ⟨none, fun r some blank => ?_⟩
    obtain ⟨c, mem⟩ := List.exists_mem_of_ne_nil r some
    rw [literalCondition?_eq, bare r some blank, around' r blank]
    exact literalWord?_of_blank (List.mem_append_left _ (List.mem_append_right _ mem)) (blank c mem)

/-- The text is empty or ends with a blank. -/
def EndsBlank (t : Text) : Prop := ∀ c ∈ t.getLast?, isBlank c

/-- The text is empty or starts with a blank. -/
def StartsBlank (t : Text) : Prop := ∀ c ∈ t.head?, isBlank c

instance (t : Text) : Decidable (EndsBlank t) := decidable_of_iff (t.getLast?.all isBlank) (Option.all_eq_true _ _)

instance (t : Text) : Decidable (StartsBlank t) := decidable_of_iff (t.head?.all isBlank) (Option.all_eq_true _ _)

theorem endsBlank_nil : EndsBlank [] := nofun

theorem startsBlank_nil : StartsBlank [] := nofun

theorem startsBlank_of_blank (blank : ∀ c ∈ b, isBlank c) : StartsBlank b :=
  fun c mem => blank c (List.mem_of_mem_head? mem)

theorem EndsBlank.append (ends : EndsBlank y) (before : y = [] → EndsBlank x) : EndsBlank (x ++ y) := by
  by_cases empty : y = []
  · rw [empty, List.append_nil]
    exact before empty
  · intro c mem
    rw [List.getLast?_append_of_ne_nil _ empty] at mem
    exact ends c mem

theorem StartsBlank.append (starts : StartsBlank x) (next : x = [] → StartsBlank y) : StartsBlank (x ++ y) := by
  cases x with
  | nil => exact next rfl
  | cons c x => exact starts

theorem StartsBlank.of_append (starts : StartsBlank (x ++ y)) (some : x ≠ []) (z : Text) : StartsBlank (x ++ z) := by
  cases x with
  | nil => exact absurd rfl some
  | cons c x => exact starts

/-- Blanks may be put into a condition beside a blank, or at either end. -/
theorem literalCondition?_insert (blank : ∀ c ∈ b, isBlank c) (beside : EndsBlank x ∨ StartsBlank y) :
    literalCondition? (x ++ b ++ y) = literalCondition? (x ++ y) := by
  rcases beside with ends | starts
  · rcases List.eq_nil_or_concat' x with rfl | ⟨x, c, rfl⟩
    · rw [← literalCondition?_trim, List.nil_append, Text.trim_append_left blank, literalCondition?_trim]
      rfl
    · have before : isBlank c := ends c List.getLast?_concat
      obtain ⟨v, run⟩ := literalCondition?_run x y
      have one := run [c] (List.cons_ne_nil _ _) (List.forall_mem_cons.2 ⟨before, List.forall_mem_nil _⟩)
      have more := run (c :: b) (List.cons_ne_nil _ _) (List.forall_mem_cons.2 ⟨before, blank⟩)
      rw [one, ← more]
      simp
  · cases y with
    | nil =>
      rw [← literalCondition?_trim, List.append_nil, Text.trim_append_right blank, literalCondition?_trim,
        List.append_nil]
    | cons c y =>
      have after : isBlank c := starts c rfl
      obtain ⟨v, run⟩ := literalCondition?_run x y
      have one := run [c] (List.cons_ne_nil _ _) (List.forall_mem_cons.2 ⟨after, List.forall_mem_nil _⟩)
      have more := run (b ++ [c]) (List.concat_ne_nil _ _)
        fun d mem => (List.mem_append.1 mem).elim (blank d) fun mem => List.mem_singleton.1 mem ▸ after
      have regroup : x ++ b ++ c :: y = x ++ (b ++ [c]) ++ y := by simp
      rw [regroup, more, ← one]
      simp

end Literal

/-! ## Operands -/

section Operands

variable {d t z : Text} {opening closing : Char} {name : Text}

theorem delimited?_append (read : delimited? opening closing t = some name) (z : Text) :
    delimited? opening closing (t ++ z) = some name := by
  cases t with
  | nil => cases read
  | cons c t =>
    rw [delimited?] at read
    rw [List.cons_append, delimited?]
    split at read
    · rename_i opens
      rw [if_pos opens]
      cases cut : Text.splitOnce closing t with
      | none => simp [cut] at read
      | some parts =>
        obtain ⟨rfl, clear⟩ := Text.splitOnce_eq_some_iff.1 cut
        rw [cut] at read
        rw [List.append_assoc, List.cons_append, Text.splitOnce_append_cons clear]
        exact read
    · cases read

/-- An operand that begins with a delimited name is read alike whatever stands behind the name. -/
theorem parseInclude_append (line : Nat) (named : (parseInclude line t).style ≠ .computed) (z : Text) :
    parseInclude line (t ++ z) = parseInclude line t := by
  unfold parseInclude at named ⊢
  cases quoted : delimited? '"' '"' t with
  | some name => rw [delimited?_append quoted]
  | none =>
    cases angled : delimited? '<' '>' t with
    | none =>
      rw [quoted, angled] at named
      exact absurd rfl named
    | some name =>
      have notQuoted : delimited? '"' '"' (t ++ z) = none := by
        cases t with
        | nil => cases angled
        | cons c t =>
          rw [delimited?] at angled
          split at angled
          · rename_i opens
            rw [opens]
            rfl
          · cases angled
      rw [notQuoted, delimited?_append angled]

/-- A text that is not blank is trimmed to the start of what any longer text is trimmed to. -/
theorem exists_trim_append (some : trim d ≠ []) (z : Text) : ∃ z', trim (d ++ z) = trim d ++ z' := by
  rcases Text.trimStart_cases d with blank | ⟨a, c, d, rfl, -, solid⟩
  · exact absurd (by rw [trim, Text.trimStart_of_blank blank]; rfl) some
  · rcases Text.trimStart_cases z with blank | ⟨a', c', z, rfl, -, solid'⟩
    · exact ⟨[], by rw [Text.trim_append_right blank, List.append_nil]⟩
    · obtain ⟨b, cut⟩ : trimEnd d <+: d := List.rdropWhile_prefix _ _
      refine ⟨b ++ a' ++ c' :: trimEnd z, ?_⟩
      have regroup : a ++ c :: d ++ (a' ++ c' :: z) = a ++ c :: (d ++ a' ++ c' :: z) := by simp
      rw [regroup, Text.trim_append_cons solid, Text.trim_append_cons solid, Text.trimEnd_append_cons solid']
      nth_rewrite 1 [← cut]
      simp

theorem name_of_computed {line : Nat} (computed : (parseInclude line t).style = .computed) :
    (parseInclude line t).name = trim t := by
  unfold parseInclude at computed ⊢
  split at computed
  · cases computed
  · cases computed
  · rfl

/-- The same for an operand that is trimmed with what stands behind it. -/
theorem parseInclude_trim_append (line : Nat) (named : (parseInclude line (trim d)).style ≠ .computed) (z : Text) :
    parseInclude line (trim (d ++ z)) = parseInclude line (trim d) := by
  have some : trim d ≠ [] := fun empty => named (by rw [empty]; rfl)
  obtain ⟨z', append⟩ := exists_trim_append some z
  rw [append, parseInclude_append line named]

end Operands

/-! ## The shape of a text -/

/-- No keyword goes on with the text. -/
def StopsKeyword (t : Text) : Prop := ∀ c ∈ t.head?, isKeywordChar c = false

section Shapes

variable {b b' k d t z : Text} {c : Char}

theorem preprocessorLine?_blank_append (blank : ∀ c ∈ b, isBlank c) (t : Text) :
    preprocessorLine? (b ++ t) = preprocessorLine? t := by
  unfold preprocessorLine?
  rw [Text.trimStart_append_left blank]

theorem preprocessorLine?_ordinary (solid : isBlank c = false) (other : c ≠ '#') (t : Text) :
    preprocessorLine? (c :: t) = none := by
  have stays : trimStart (c :: t) = c :: t := List.dropWhile_cons_of_neg (by simp [solid])
  unfold preprocessorLine?
  rw [stays]
  split
  · rename_i same
    exact absurd (List.cons.inj same).1 other
  · rfl

theorem preprocessorLine?_hash (t : Text) :
    preprocessorLine? ('#' :: t) =
      if ((trimStart t).takeWhile isKeywordChar).isEmpty then none
      else some ⟨(trimStart t).takeWhile isKeywordChar, trim ((trimStart t).dropWhile isKeywordChar)⟩ := rfl

theorem preprocessorLine?_hash_append (blank : ∀ c ∈ b, isBlank c) (t : Text) :
    preprocessorLine? ('#' :: (b ++ t)) = preprocessorLine? ('#' :: t) := by
  rw [preprocessorLine?_hash, preprocessorLine?_hash, Text.trimStart_append_left blank]

theorem preprocessorLine?_nameless (solid : isBlank c = false) (other : isKeywordChar c = false) (t : Text) :
    preprocessorLine? ('#' :: c :: t) = none := by
  have stays : trimStart (c :: t) = c :: t := List.dropWhile_cons_of_neg (by simp [solid])
  rw [preprocessorLine?_hash, stays, List.takeWhile_cons_of_neg (by simp [other])]
  rfl

theorem isBlank_of_isKeywordChar (keyword : isKeywordChar c) : isBlank c = false := by
  rw [Bool.eq_false_iff]
  intro blank
  simp only [isBlank, Bool.or_eq_true, Bool.and_eq_true, decide_eq_true_eq, beq_iff_eq] at blank
  simp only [isKeywordChar, Bool.or_eq_true, Bool.and_eq_true, decide_eq_true_eq, Char.le_def,
    UInt32.le_iff_toNat_le] at keyword
  have point : c.toNat = c.val.toNat := rfl
  have low : 'a'.val.toNat = 97 ∧ 'z'.val.toNat = 122 ∧ 'A'.val.toNat = 65 ∧ 'Z'.val.toNat = 90 := by decide
  rcases keyword with small | rfl
  · omega
  · revert blank
    decide

theorem StartsBlank.stopsKeyword (starts : StartsBlank t) : StopsKeyword t := by
  intro c mem
  rw [Bool.eq_false_iff]
  exact fun keyword => Bool.false_ne_true ((isBlank_of_isKeywordChar keyword).symm.trans (starts c mem))

theorem StopsKeyword.append (ends : StopsKeyword d) (next : d = [] → StopsKeyword z) : StopsKeyword (d ++ z) := by
  cases d with
  | nil => exact next rfl
  | cons c d => exact ends

theorem trimStart_keyword (named : k ≠ []) (keyword : ∀ c ∈ k, isKeywordChar c) (d : Text) :
    trimStart (k ++ d) = k ++ d := by
  cases k with
  | nil => exact absurd rfl named
  | cons c k => exact List.dropWhile_cons_of_neg (by simp [isBlank_of_isKeywordChar (keyword c List.mem_cons_self)])

theorem span_keyword (keyword : ∀ c ∈ k, isKeywordChar c) (ends : StopsKeyword d) :
    (k ++ d).takeWhile isKeywordChar = k ∧ (k ++ d).dropWhile isKeywordChar = d := by
  rw [List.takeWhile_append_of_pos keyword, List.dropWhile_append_of_pos keyword]
  cases d with
  | nil => exact ⟨List.append_nil k, rfl⟩
  | cons c d =>
    have stop : ¬ isKeywordChar c := by simp [ends c rfl]
    rw [List.takeWhile_cons_of_neg stop, List.dropWhile_cons_of_neg stop]
    exact ⟨List.append_nil k, rfl⟩

theorem preprocessorLine?_keyword (named : k ≠ []) (keyword : ∀ c ∈ k, isKeywordChar c)
    (ends : StopsKeyword d) : preprocessorLine? ('#' :: (k ++ d)) = some ⟨k, trim d⟩ := by
  rw [preprocessorLine?_hash, trimStart_keyword named keyword, (span_keyword keyword ends).1,
    (span_keyword keyword ends).2, if_neg (by simpa using named)]

end Shapes

/-- The text is a hash, a keyword `k`, and `d` behind the keyword. -/
inductive KeywordLine (k d : Text) : Text → Prop
  | intro {b b' : Text} (blank : ∀ c ∈ b, isBlank c) (blank' : ∀ c ∈ b', isBlank c) (named : k ≠ [])
    (keyword : ∀ c ∈ k, isKeywordChar c) (ends : StopsKeyword d) : KeywordLine k d (b ++ '#' :: (b' ++ (k ++ d)))

/-- The shapes of a text. -/
inductive Shape : Text → Prop
  /-- There is nothing but blanks. -/
  | blank {b : Text} (blank : ∀ c ∈ b, isBlank c) : Shape b
  /-- The first character is no hash. -/
  | ordinary {b : Text} {c : Char} (blank : ∀ c ∈ b, isBlank c) (solid : isBlank c = false) (other : c ≠ '#')
    (t : Text) : Shape (b ++ c :: t)
  /-- There is nothing but a hash. -/
  | hash {b b' : Text} (blank : ∀ c ∈ b, isBlank c) (blank' : ∀ c ∈ b', isBlank c) : Shape (b ++ '#' :: b')
  /-- No keyword stands behind the hash. -/
  | nameless {b b' : Text} {c : Char} (blank : ∀ c ∈ b, isBlank c) (blank' : ∀ c ∈ b', isBlank c)
    (solid : isBlank c = false) (other : isKeywordChar c = false) (t : Text) : Shape (b ++ '#' :: (b' ++ c :: t))
  /-- A keyword stands behind the hash, and perhaps something behind it. -/
  | keyword {k d t : Text} (line : KeywordLine k d t) : Shape t

/-- Every text has a shape. -/
theorem shape (t : Text) : Shape t := by
  rcases Text.trimStart_cases t with blank | ⟨b, c, t, rfl, blank, solid⟩
  · exact .blank blank
  by_cases other : c = '#'
  swap
  · exact .ordinary blank solid other t
  subst other
  rcases Text.trimStart_cases t with blank' | ⟨b', c, t, rfl, blank', solid'⟩
  · exact .hash blank blank'
  cases first : isKeywordChar c with
  | false => exact .nameless blank blank' solid' first t
  | true =>
    rw [← List.takeWhile_append_dropWhile (p := isKeywordChar) (l := c :: t)]
    refine .keyword (.intro blank blank' ?_ (fun d mem => List.mem_takeWhile_imp mem) fun d mem => ?_)
    · rw [List.takeWhile_cons_of_pos first]
      exact List.cons_ne_nil _ _
    · have := List.head?_dropWhile_not isKeywordChar (c :: t)
      rw [mem] at this
      exact this

/-! ## What blanks change -/

/-- The operand of an include has begun, and no delimited name is complete in it. -/
def opensOperand (t : Text) : Bool := (effect t).held.any fun target => target.2 = .computed ∧ target.1 ≠ []

section Insertion

variable {b b' d k t z : Text} {c : Char} {p q : PreprocessorLine}

theorem effect_congr {t t' : Text} (same : preprocessorLine? t = preprocessorLine? t') : effect t = effect t' := by
  rw [effect, effect, same]

theorem effect_of_some (read : preprocessorLine? t = some p) : effect t = p.effect := by
  rw [effect, read]
  rfl

theorem PreprocessorLine.role_congr (keyword : p.keyword = q.keyword)
    (literal : p.keyword = "if" ∨ p.keyword = "elif" → literalCondition? p.rest = literalCondition? q.rest) :
    p.role = q.role := by
  unfold role
  rw [← keyword]
  split
  · rename_i isIf
    rw [literal (.inl isIf)]
  split
  · rfl
  split
  · rename_i isElif
    rw [literal (.inr isElif)]
  · rfl

theorem PreprocessorLine.effect_congr (keyword : p.keyword = q.keyword)
    (literal : p.keyword = "if" ∨ p.keyword = "elif" → literalCondition? p.rest = literalCondition? q.rest)
    (held : p.keyword = "include" → parseInclude 0 p.rest = parseInclude 0 q.rest) : p.effect = q.effect := by
  rw [effect, effect, role_congr keyword literal, ← keyword]
  split
  · rename_i isInclude
    rw [held isInclude]
  · rfl

theorem effect_ordinary (blank : ∀ c ∈ b, isBlank c) (solid : isBlank c = false) (other : c ≠ '#') (t : Text) :
    effect (b ++ c :: t) = ⟨.plain, none⟩ := by
  rw [effect, preprocessorLine?_blank_append blank, preprocessorLine?_ordinary solid other]
  rfl

theorem effect_nameless (blank : ∀ c ∈ b, isBlank c) (blank' : ∀ c ∈ b', isBlank c) (solid : isBlank c = false)
    (other : isKeywordChar c = false) (t : Text) : effect (b ++ '#' :: (b' ++ c :: t)) = ⟨.plain, none⟩ := by
  rw [effect, preprocessorLine?_blank_append blank, preprocessorLine?_hash_append blank',
    preprocessorLine?_nameless solid other]
  rfl

/-- Unless there is a keyword, the blanks that what follows starts with do not matter. -/
theorem effect_append_or (t : Text) :
    (∀ z z', trimStart z = trimStart z' → effect (t ++ z) = effect (t ++ z')) ∨ ∃ k d, KeywordLine k d t := by
  cases shape t with
  | blank blank =>
    refine .inl fun z z' same => effect_congr ?_
    rw [preprocessorLine?_blank_append blank, preprocessorLine?_blank_append blank, preprocessorLine?,
      preprocessorLine?, same]
  | ordinary blank solid other t =>
    refine .inl fun z z' _ => ?_
    simp only [List.append_assoc, List.cons_append]
    rw [effect_ordinary blank solid other, effect_ordinary blank solid other]
  | hash blank blank' =>
    refine .inl fun z z' same => effect_congr ?_
    simp only [List.append_assoc, List.cons_append]
    rw [preprocessorLine?_blank_append blank, preprocessorLine?_blank_append blank,
      preprocessorLine?_hash_append blank', preprocessorLine?_hash_append blank', preprocessorLine?_hash,
      preprocessorLine?_hash, same]
  | nameless blank blank' solid other t =>
    refine .inl fun z z' _ => ?_
    simp only [List.append_assoc, List.cons_append]
    rw [effect_nameless blank blank' solid other, effect_nameless blank blank' solid other]
  | keyword line => exact .inr ⟨_, _, line⟩

/-- Behind the keyword, what follows goes on with the operand. -/
theorem KeywordLine.effect_append (line : KeywordLine k d t) (next : d = [] → StopsKeyword z) :
    effect (t ++ z) = PreprocessorLine.effect ⟨k, trim (d ++ z)⟩ := by
  obtain @⟨b, b', blank, blank', named, keyword, ends⟩ := line
  have regroup : b ++ '#' :: (b' ++ (k ++ d)) ++ z = b ++ '#' :: (b' ++ (k ++ (d ++ z))) := by simp
  refine effect_of_some ?_
  rw [regroup, preprocessorLine?_blank_append blank, preprocessorLine?_hash_append blank',
    preprocessorLine?_keyword named keyword (ends.append next)]

theorem KeywordLine.effect_eq (line : KeywordLine k d t) : effect t = PreprocessorLine.effect ⟨k, trim d⟩ := by
  have := line.effect_append (z := []) fun _ => startsBlank_nil.stopsKeyword
  rwa [List.append_nil, List.append_nil] at this

/-- **Blanks at the end** of a text do not matter. -/
theorem effect_append_blanks (blank : ∀ c ∈ b, isBlank c) (t : Text) : effect (t ++ b) = effect t := by
  rcases effect_append_or t with start | ⟨k, d, line⟩
  · have same : trimStart b = trimStart [] := Text.trimStart_of_blank blank
    rw [start b [] same, List.append_nil]
  · rw [line.effect_append fun _ => (startsBlank_of_blank blank).stopsKeyword, Text.trim_append_right blank,
      line.effect_eq]

/-- An operand that is not open is blank or has a complete delimited name. -/
theorem KeywordLine.operand_of_not_opensOperand (line : KeywordLine "include" d t) (whole : ¬ opensOperand t) :
    (∀ c ∈ d, isBlank c) ∨ (parseInclude 0 (trim d)).style ≠ .computed := by
  by_cases empty : trim d = []
  · exact .inl (Text.blank_of_trim_eq_nil empty)
  refine .inr fun computed => whole ?_
  have named : (parseInclude 0 (trim d)).name ≠ [] := by rwa [name_of_computed computed, Text.trim_trim]
  have held : (effect t).held = some (parseInclude 0 (trim d)).target := by rw [line.effect_eq]; rfl
  rw [opensOperand, held]
  exact decide_eq_true ⟨computed, named⟩

/-- A blank at the end of a keyword line stands behind its keyword. -/
theorem KeywordLine.endsBlank (line : KeywordLine k d t) (ends : EndsBlank t) : d ≠ [] ∧ EndsBlank d := by
  obtain @⟨b, b', -, -, named, keyword, -⟩ := line
  rcases List.eq_nil_or_concat' d with rfl | ⟨d, last, rfl⟩
  · obtain ⟨k, last, rfl⟩ := (List.eq_nil_or_concat' k).resolve_left named
    have regroup : b ++ '#' :: (b' ++ (k ++ [last] ++ [])) = b ++ '#' :: (b' ++ k) ++ [last] := by simp
    have solid := isBlank_of_isKeywordChar (keyword last (by simp))
    exact absurd (ends last (by rw [regroup]; exact List.getLast?_concat)) (Bool.eq_false_iff.1 solid)
  · have regroup : b ++ '#' :: (b' ++ (k ++ (d ++ [last]))) = b ++ '#' :: (b' ++ (k ++ d)) ++ [last] := by simp
    refine ⟨List.concat_ne_nil _ _, fun c mem => ends c ?_⟩
    rw [List.getLast?_concat] at mem
    rw [regroup, List.getLast?_concat]
    exact mem

/-- **Blanks beside a blank**, or at either end, do not matter unless an operand is open. -/
theorem effect_insert (blank : ∀ c ∈ b, isBlank c) (whole : ¬ opensOperand t)
    (beside : EndsBlank t ∨ StartsBlank z) : effect (t ++ b ++ z) = effect (t ++ z) := by
  rw [List.append_assoc]
  rcases effect_append_or t with start | ⟨k, d, line⟩
  · exact start _ _ (Text.trimStart_append_left blank)
  have beside' : (d ≠ [] ∧ EndsBlank d) ∨ StartsBlank z := beside.imp_left line.endsBlank
  have next : d = [] → StartsBlank z := fun empty => beside'.resolve_left fun h => h.1 empty
  have next' : d = [] → StartsBlank (b ++ z) := fun empty => (startsBlank_of_blank blank).append fun _ => next empty
  rw [line.effect_append fun empty => (next' empty).stopsKeyword,
    line.effect_append fun empty => (next empty).stopsKeyword]
  refine PreprocessorLine.effect_congr rfl (fun _ => ?_) ?_
  · rw [literalCondition?_trim, literalCondition?_trim, ← List.append_assoc]
    exact literalCondition?_insert blank (beside'.imp_left And.right)
  · rintro rfl
    rcases line.operand_of_not_opensOperand whole with empty | named
    · rw [Text.trim_append_left empty, Text.trim_append_left empty, Text.trim_append_left blank]
    · rw [parseInclude_trim_append 0 named, parseInclude_trim_append 0 named]

end Insertion

/-! ## Settled texts -/

/-- A directive, without its hash, whose keyword is complete and has no operand that is read, or which is an include
with a complete delimited name. -/
def isSettledDirective (rest : Text) : Bool :=
  let keyword := (trimStart rest).takeWhile isKeywordChar
  let operand := (trimStart rest).dropWhile isKeywordChar
  operand ≠ [] ∧ keyword ≠ "if" ∧ keyword ≠ "elif" ∧
    (keyword = "include" → (parseInclude 0 (trim operand)).style ≠ .computed)

/-- Ordinary code, or a settled directive: whatever stands behind the text, a scan takes the same from it. -/
def isSettled (t : Text) : Bool :=
  match trimStart t with
  | [] => false
  | '#' :: rest => isSettledDirective rest
  | _ => true

section Settled

variable {b k d t z : Text}

theorem isSettled_hash (blank : ∀ c ∈ b, isBlank c) (rest : Text) :
    isSettled (b ++ '#' :: rest) = isSettledDirective rest := by
  unfold isSettled
  rw [Text.trimStart_append_left blank]
  rfl

theorem KeywordLine.isSettled_iff (line : KeywordLine k d t) : isSettled t ↔ d ≠ [] ∧ k ≠ "if" ∧ k ≠ "elif" ∧
    (k = "include" → (parseInclude 0 (trim d)).style ≠ .computed) := by
  obtain @⟨b, b', blank, blank', named, keyword, ends⟩ := line
  rw [isSettled_hash blank, isSettledDirective, Text.trimStart_append_left blank', trimStart_keyword named keyword,
    (span_keyword keyword ends).1, (span_keyword keyword ends).2, decide_eq_true_iff]

/-- **What stands behind a settled text** does not matter. -/
theorem effect_append_of_isSettled (settled : isSettled t) (z : Text) : effect (t ++ z) = effect t := by
  cases shape t with
  | blank blank =>
    rw [isSettled, Text.trimStart_of_blank blank] at settled
    cases settled
  | ordinary blank solid other t =>
    simp only [List.append_assoc, List.cons_append]
    rw [effect_ordinary blank solid other, effect_ordinary blank solid other]
  | hash blank blank' =>
    rw [isSettled_hash blank, isSettledDirective, Text.trimStart_of_blank blank'] at settled
    cases settled
  | nameless blank blank' solid other t =>
    simp only [List.append_assoc, List.cons_append]
    rw [effect_nameless blank blank' solid other, effect_nameless blank blank' solid other]
  | @keyword k d t line =>
    obtain ⟨some, notIf, notElif, named⟩ := line.isSettled_iff.1 settled
    rw [line.effect_append fun empty => absurd empty some, line.effect_eq]
    exact PreprocessorLine.effect_congr rfl (fun h => (h.elim notIf notElif).elim)
      fun isInclude => parseInclude_trim_append 0 (named isInclude) z

end Settled

end SolutionGraph.Include
