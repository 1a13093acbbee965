import Mathlib.Data.List.TakeWhile
import SolutionGraph.Proofs.Path.Normal

/-!
# Trimming, cutting and lines

The readers of line formats trim a line, cut it at a separator, and trim the parts.

* **trimming**: `trim` drops the blanks around a text (`exists_append_trim`), and a character that is no blank divides what
  is trimmed on its left from what is trimmed on its right (`trim_append_cons`);
* **cutting**: `splitOnce` finds the first separator (`splitOnce_eq_some_iff`), and trimming before it does not move the cut
  (`splitOnce_trim`);
* **lines**: written lines are read back, but for a carriage return that trimming drops anyway (`lines_flatMap`,
  `trim_dropReturn`), and what stands before the first line feed does not change their number (`length_lines_append`).
-/

namespace SolutionGraph.Text

/-! ## Trimming -/

section Trimming

variable {a b t : Text} {c : Char}

theorem isBlank_of_isAllBlank (h : isAllBlank t) : ∀ c ∈ t, isBlank c := List.all_eq_true.1 h

theorem trimStart_append_left (blank : ∀ c ∈ a, isBlank c) : trimStart (a ++ t) = trimStart t :=
  List.dropWhile_append_of_pos blank

theorem trimEnd_append_right (blank : ∀ c ∈ b, isBlank c) : trimEnd (t ++ b) = trimEnd t := by
  have blank' : ∀ c ∈ b.reverse, isBlank c := fun c mem => blank c (List.mem_reverse.1 mem)
  rw [trimEnd, List.reverse_append, List.dropWhile_append_of_pos blank', trimEnd]

theorem trimStart_append_cons (solid : isBlank c = false) : trimStart (a ++ c :: b) = trimStart a ++ c :: b := by
  induction a with
  | nil => simp [trimStart, solid]
  | cons x a ih =>
    unfold trimStart at ih ⊢
    rw [List.cons_append, List.dropWhile_cons, List.dropWhile_cons]
    split
    · exact ih
    · rfl

theorem trimEnd_append_cons (solid : isBlank c = false) : trimEnd (a ++ c :: b) = a ++ c :: trimEnd b := by
  have turned : (a ++ c :: b).reverse = b.reverse ++ c :: a.reverse := by simp
  have start := trimStart_append_cons (a := b.reverse) (b := a.reverse) solid
  rw [trimStart, trimStart] at start
  rw [trimEnd, turned, start, trimEnd]
  simp

/-- **A character that is no blank** divides what is trimmed at the start from what is trimmed at the end. -/
theorem trim_append_cons (solid : isBlank c = false) : trim (a ++ c :: b) = trimStart a ++ c :: trimEnd b := by
  rw [trim, trimStart_append_cons solid, trimEnd_append_cons solid]

theorem trim_cons (solid : isBlank c = false) : trim (c :: t) = c :: trimEnd t :=
  trim_append_cons (a := []) solid

theorem trim_cons_concat {d : Char} (first : isBlank c = false) (last : isBlank d = false) :
    trim (c :: (t ++ [d])) = c :: (t ++ [d]) := by
  rw [trim_cons first, trimEnd_append_cons last]
  rfl

theorem trim_append_left (blank : ∀ c ∈ a, isBlank c) : trim (a ++ t) = trim t := by
  rw [trim, trimStart_append_left blank, trim]

/-- A text is blank, or it has a first character that is no blank. -/
theorem trimStart_cases (t : Text) :
    (∀ c ∈ t, isBlank c) ∨ ∃ a c rest, t = a ++ c :: rest ∧ (∀ c ∈ a, isBlank c) ∧ isBlank c = false := by
  induction t with
  | nil => exact .inl nofun
  | cons x t ih =>
    cases solid : isBlank x with
    | false => exact .inr ⟨[], x, t, rfl, nofun, solid⟩
    | true =>
      rcases ih with blank | ⟨a, c, rest, rfl, blank, solid'⟩
      · exact .inl (List.forall_mem_cons.2 ⟨solid, blank⟩)
      · exact .inr ⟨x :: a, c, rest, rfl, List.forall_mem_cons.2 ⟨solid, blank⟩, solid'⟩

theorem trimStart_of_blank (blank : ∀ c ∈ t, isBlank c) : trimStart t = [] :=
  List.dropWhile_eq_nil_iff.2 blank

/-- A character that is no blank is not among blanks. -/
theorem not_mem_of_blank (solid : isBlank c = false) (blank : ∀ c ∈ a, isBlank c) : c ∉ a := by
  intro mem
  rw [blank c mem] at solid
  cases solid

theorem trim_append_right (blank : ∀ c ∈ b, isBlank c) : trim (t ++ b) = trim t := by
  rcases trimStart_cases t with all | ⟨a, c, rest, rfl, _, solid⟩
  · have whole : ∀ c ∈ t ++ b, isBlank c := fun c mem => (List.mem_append.1 mem).elim (all c) (blank c)
    rw [trim, trimStart_of_blank whole, trim, trimStart_of_blank all]
  · rw [List.append_assoc, List.cons_append, trim_append_cons solid, trim_append_cons solid, trimEnd_append_right blank]

/-- Trimming drops blanks on both sides and nothing else. -/
theorem exists_append_trim (t : Text) :
    ∃ a b, t = a ++ trim t ++ b ∧ (∀ c ∈ a, isBlank c) ∧ ∀ c ∈ b, isBlank c := by
  refine ⟨t.takeWhile isBlank, ((trimStart t).reverse.takeWhile isBlank).reverse, ?_, ?_, ?_⟩
  · rw [trim, trimEnd, List.append_assoc, ← List.reverse_append, List.takeWhile_append_dropWhile, List.reverse_reverse,
      trimStart, List.takeWhile_append_dropWhile]
  · exact fun c mem => List.mem_takeWhile_imp mem
  · exact fun c mem => List.mem_takeWhile_imp (List.mem_reverse.1 mem)

theorem trim_trim (t : Text) : trim (trim t) = trim t := by
  obtain ⟨a, b, cut, before, after⟩ := exists_append_trim t
  calc trim (trim t) = trim (a ++ trim t ++ b) := by rw [trim_append_right after, trim_append_left before]
    _ = trim t := by rw [← cut]

theorem blank_of_trim_eq_nil (empty : trim t = []) : ∀ c ∈ t, isBlank c := by
  rcases trimStart_cases t with blank | ⟨a, c, t, rfl, -, solid⟩
  · exact blank
  · rw [trim_append_cons solid] at empty
    exact absurd empty (List.append_ne_nil_of_right_ne_nil _ (List.cons_ne_nil _ _))

/-- Trimming the end drops blanks there and nothing else. -/
theorem exists_append_trimEnd (t : Text) : ∃ b, t = trimEnd t ++ b ∧ ∀ c ∈ b, isBlank c := by
  refine ⟨(t.reverse.takeWhile isBlank).reverse, ?_, fun c mem => List.mem_takeWhile_imp (List.mem_reverse.1 mem)⟩
  rw [trimEnd, ← List.reverse_append, List.takeWhile_append_dropWhile, List.reverse_reverse]

/-- The end of a text is trimmed in its last part, unless that is blank. -/
theorem trimEnd_append_cases (a b : Text) :
    ((∀ c ∈ b, isBlank c) ∧ trimEnd (a ++ b) = trimEnd a) ∨ trimEnd b ≠ [] ∧ trimEnd (a ++ b) = a ++ trimEnd b := by
  rcases trimStart_cases b with blank | ⟨x, c, y, rfl, -, solid⟩
  · exact .inl ⟨blank, trimEnd_append_right blank⟩
  · rw [← List.append_assoc, trimEnd_append_cons solid, trimEnd_append_cons solid, List.append_assoc]
    exact .inr ⟨List.append_ne_nil_of_right_ne_nil _ (List.cons_ne_nil _ _), rfl⟩

/-- What is left of a text after trimming one end is trimmed like the whole. -/
theorem trim_trimStart (t : Text) : trim (trimStart t) = trim t := by
  have split : t.takeWhile isBlank ++ trimStart t = t := List.takeWhile_append_dropWhile
  rw [← trim_append_left (a := t.takeWhile isBlank) fun c mem => List.mem_takeWhile_imp mem, split]

theorem trim_trimEnd (t : Text) : trim (trimEnd t) = trim t := by
  obtain ⟨b, cut, blank⟩ := exists_append_trimEnd t
  calc trim (trimEnd t) = trim (trimEnd t ++ b) := (trim_append_right blank).symm
    _ = trim t := by rw [← cut]

end Trimming

/-! ## Cutting -/

section Cutting

variable {separator : Char} {a b t : Text}

theorem splitOnce_append_cons (clear : separator ∉ a) : splitOnce separator (a ++ separator :: b) = some (a, b) := by
  induction a with
  | nil => simp [splitOnce]
  | cons c a ih =>
    rw [List.mem_cons, not_or] at clear
    rw [List.cons_append, splitOnce, if_neg (Ne.symm clear.1), ih clear.2]
    rfl

theorem splitOnce_eq_none_iff : splitOnce separator t = none ↔ separator ∉ t := by
  induction t with
  | nil => simp [splitOnce]
  | cons c t ih =>
    rw [splitOnce, List.mem_cons, not_or]
    split
    · rename_i same
      simp [same]
    · rename_i other
      rw [Option.map_eq_none_iff, ih]
      exact ⟨fun clear => ⟨Ne.symm other, clear⟩, And.right⟩

/-- A text is cut at its first separator. -/
theorem splitOnce_eq_some_iff : splitOnce separator t = some (a, b) ↔ t = a ++ separator :: b ∧ separator ∉ a := by
  constructor
  · intro cut
    induction t generalizing a with
    | nil => cases cut
    | cons c t ih =>
      rw [splitOnce] at cut
      split at cut
      · rename_i same
        cases cut
        exact ⟨congrArg (· :: _) same, List.not_mem_nil⟩
      · rename_i other
        obtain ⟨⟨before, after⟩, cut, same⟩ := Option.map_eq_some_iff.1 cut
        cases same
        obtain ⟨rfl, clear⟩ := ih cut
        exact ⟨rfl, List.not_mem_cons_of_ne_of_not_mem (Ne.symm other) clear⟩
  · rintro ⟨rfl, clear⟩
    exact splitOnce_append_cons clear

/-- Trimming a text leaves it to be cut where it was. -/
theorem splitOnce_trim (solid : isBlank separator = false) (t : Text) :
    splitOnce separator (trim t) = (splitOnce separator t).map fun parts => (trimStart parts.1, trimEnd parts.2) := by
  cases cut : splitOnce separator t with
  | none =>
    obtain ⟨a, b, whole, _⟩ := exists_append_trim t
    rw [splitOnce_eq_none_iff, whole] at cut
    exact splitOnce_eq_none_iff.2 fun mem => cut (List.mem_append_left b (List.mem_append_right a mem))
  | some parts =>
    obtain ⟨rfl, clear⟩ := splitOnce_eq_some_iff.1 cut
    rw [trim_append_cons solid]
    exact splitOnce_append_cons fun mem => clear ((List.dropWhile_sublist _).subset mem)

end Cutting

/-! ## Lines -/

theorem splitOn_flatMap {ls : List Text} (clear : ∀ line ∈ ls, '\n' ∉ line) :
    splitOn '\n' (ls.flatMap fun line => line ++ ['\n']) = ls ++ [[]] := by
  induction ls with
  | nil => rfl
  | cons line ls ih =>
    rw [List.forall_mem_cons] at clear
    rw [List.flatMap_cons, List.append_assoc, List.singleton_append, splitOn_append_cons clear.1, ih clear.2]
    rfl

/-- Lines that are written one after the other are read as they were, but for a carriage return at their end. -/
theorem lines_flatMap {ls : List Text} (clear : ∀ line ∈ ls, '\n' ∉ line) :
    lines (ls.flatMap fun line => line ++ ['\n']) = ls.map dropReturn := by
  simp only [lines, splitOn_flatMap clear, List.dropLast_concat, List.getLast?_concat]

theorem trim_dropReturn (line : Text) : trim (dropReturn line) = trim line := by
  unfold dropReturn
  split
  · rename_i last
    obtain ⟨kept, rfl⟩ := List.getLast?_eq_some_iff.1 last
    rw [List.dropLast_concat, trim_append_right (isBlank_of_isAllBlank rfl)]
  · rfl

/-- A character that ends no line does not change how many lines there are, if there are any. -/
theorem length_lines_cons {c : Char} {t : Text} (same : c ≠ '\n') (some : lines t ≠ []) :
    (lines (c :: t)).length = (lines t).length := by
  unfold lines at some ⊢
  rw [splitOn, if_neg same]
  cases pieces : splitOn '\n' t with
  | nil => simp [pieces] at some
  | cons piece rest =>
    obtain rfl | ⟨rest, last, rfl⟩ := List.eq_nil_or_concat rest
    · cases piece with
      | nil => simp [pieces] at some
      | cons d piece => rfl
    · simp only [List.concat_eq_append, ← List.cons_append, List.dropLast_concat, List.getLast?_concat]
      cases last <;> simp

theorem length_lines_append {a t : Text} (same : '\n' ∉ a) (some : lines t ≠ []) :
    (lines (a ++ t)).length = (lines t).length := by
  induction a with
  | nil => rfl
  | cons c a ih =>
    rw [List.mem_cons, not_or] at same
    have rest := ih same.2
    have more : lines (a ++ t) ≠ [] := by
      rw [← List.length_pos_iff, rest]
      exact List.length_pos_iff.2 some
    rw [List.cons_append, length_lines_cons (Ne.symm same.1) more, rest]

end SolutionGraph.Text
