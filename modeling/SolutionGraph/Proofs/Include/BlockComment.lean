import SolutionGraph.Proofs.Include.LogicalLine

/-!
# Block comments on lines of their own

Lines that are nothing but one block comment make one logical line without text, which is no directive. Put between two
lines at which the scan is at rest, they move what follows and change nothing else (`scanDirectives_insert_comment`).
-/

namespace SolutionGraph.Include

/-- No continuation is pending and no block comment is open. -/
def LineState.AtRest (s : LineState) : Prop := s.pending = [] ∧ s.inBlock = false

instance (s : LineState) : Decidable s.AtRest := inferInstanceAs (Decidable (_ ∧ _))

/-- A directive after lines were put in: the lines of the text up to `boundary` stand where they stood. -/
def Directive.movedPast (boundary k : Nat) (d : Directive) : Directive := if d.line ≤ boundary then d else d.moved k

/-! ## The lines of a comment -/

section Comment

variable {body line : Text} {ls : List Text} {start number : Nat}

/-- A text that is cut at a character of its first part. -/
theorem exists_eq_append_of_append_cons {a b x y : Text} {c : Char} (same : a ++ c :: b = x ++ y) (clear : c ∉ y) :
    ∃ x', x = a ++ c :: x' ∧ b = x' ++ y := by
  rcases List.append_eq_append_iff.1 same with ⟨x', rfl, cut⟩ | ⟨y', rfl, rfl⟩
  · cases x' with
    | nil =>
      obtain rfl : c :: b = y := cut
      exact absurd List.mem_cons_self clear
    | cons d x' =>
      obtain ⟨rfl, rfl⟩ := List.cons.inj cut
      exact ⟨x', rfl, rfl⟩
  · exact absurd (List.mem_append_right _ List.mem_cons_self) clear

theorem join_cons {first : Text} (next : Text) (rest : List Text) :
    Text.join "\n" (first :: next :: rest) = first ++ '\n' :: Text.join "\n" (next :: rest) := by
  rw [Text.join, List.append_assoc]
  · rfl
  · exact fun h => nomatch h

theorem step_inside_comment (inner : ¬ ['*', '/'] <:+: line) :
    (LineState.mk [] start true).step number line = (none, ⟨[], number, true⟩) := by
  unfold LineState.step stripComments
  rw [if_pos rfl, stripFrom_block_of_not_infix inner]
  rfl

theorem step_closing_comment (inner : ¬ ['*', '/'] <:+: body) :
    (LineState.mk [] start true).step number (body ++ ['*', '/']) = (some ⟨number, []⟩, ⟨[], number, false⟩) := by
  unfold LineState.step stripComments
  rw [if_pos rfl, stripFrom_block_append_close inner, stripFrom]
  rfl

/-- The lines up to the end of an open block comment are one logical line without text. -/
theorem ended_comment (inner : ¬ ['*', '/'] <:+: body) (spelled : Text.join "\n" ls = body ++ ['*', '/']) :
    ∃ last, (LineState.mk [] start true).ended number ls = [⟨last, []⟩] ∧
      (LineState.mk [] start true).after number ls = ⟨[], last, false⟩ := by
  induction ls generalizing body start number with
  | nil => cases body <;> cases spelled
  | cons first rest ih =>
    cases rest with
    | nil =>
      obtain rfl : first = body ++ ['*', '/'] := spelled
      refine ⟨number, ?_, ?_⟩
      · rw [LineState.ended, step_closing_comment inner]
        rfl
      · rw [LineState.after, step_closing_comment inner]
        rfl
    | cons next rest =>
      rw [join_cons] at spelled
      obtain ⟨body, rfl, joined⟩ := exists_eq_append_of_append_cons spelled (by decide)
      have here : ¬ ['*', '/'] <:+: first := fun found => inner (found.trans (List.prefix_append _ _).isInfix)
      have later : ¬ ['*', '/'] <:+: body := fun found =>
        inner (found.trans ((List.suffix_cons _ _).trans (List.suffix_append _ _)).isInfix)
      rw [LineState.ended, LineState.after, step_inside_comment here]
      exact ih later joined

/-- A comment that opens at rest is read like the rest of an open one. -/
theorem step_opening_comment (line : Text) :
    (LineState.mk [] start false).step number ('/' :: '*' :: line) = (LineState.mk [] start true).step number line := by
  have opens : stripComments false ('/' :: '*' :: line) = stripComments true line := by
    unfold stripComments
    rw [if_neg Bool.false_ne_true, if_pos rfl, stripFrom]
  unfold LineState.step
  dsimp only
  rw [opens]

theorem exists_of_join_comment (spelled : Text.join "\n" ls = '/' :: '*' :: body) :
    ∃ first rest, ls = ('/' :: '*' :: first) :: rest ∧ Text.join "\n" (first :: rest) = body := by
  match ls with
  | [] => cases spelled
  | [line] =>
    obtain rfl : line = '/' :: '*' :: body := spelled
    exact ⟨body, [], rfl, rfl⟩
  | line :: next :: rest =>
    rw [join_cons] at spelled
    match line with
    | [] | [_] => injections; contradiction
    | c :: d :: line =>
      obtain ⟨rfl, starred⟩ := List.cons.inj spelled
      obtain ⟨rfl, joined⟩ := List.cons.inj starred
      exact ⟨line, next :: rest, rfl, (join_cons next rest).trans joined⟩

/-- **The lines of a block comment**, read at rest, are one logical line without text, and the scan is at rest again. -/
theorem ended_block_comment {s : LineState} (number : Nat) (atRest : s.AtRest) (inner : ¬ ['*', '/'] <:+: body)
    (spelled : Text.join "\n" ls = '/' :: '*' :: body ++ ['*', '/']) :
    ∃ last, s.ended number ls = [⟨last, []⟩] ∧ s.after number ls = ⟨[], last, false⟩ := by
  obtain ⟨first, rest, rfl, joined⟩ := exists_of_join_comment spelled
  obtain ⟨pending, start, inBlock⟩ := s
  obtain ⟨rfl, rfl⟩ : pending = [] ∧ inBlock = false := atRest
  rw [LineState.ended, LineState.after, step_opening_comment]
  exact ended_comment inner joined

end Comment

/-! ## A comment put in -/

section Insertion

variable {source source' : Text} {before inserted after : List Text} {body : Text}

/-- **Block comments are invisible.** Lines that are nothing but one block comment may be put in between two lines, or
at either end, where no block comment is open and no continuation is pending: the directives before them stay as they
are, and those after them are the same, as many lines further on as were put in. -/
theorem scanDirectives_insert_comment (lines : Text.lines source = before ++ after)
    (lines' : Text.lines source' = before ++ inserted ++ after)
    (comment : Text.join "\n" inserted = '/' :: '*' :: body ++ ['*', '/']) (inner : ¬ ['*', '/'] <:+: body)
    (boundary : (LineState.initial.after 1 before).AtRest) :
    scanDirectives source' =
      (scanDirectives source).map (Directive.movedPast before.length inserted.length) := by
  generalize carried : LineState.initial.after 1 before = s at boundary
  obtain ⟨last, line, next⟩ := ended_block_comment (1 + before.length) boundary inner comment
  obtain ⟨pending, start, inBlock⟩ := s
  obtain ⟨rfl, rfl⟩ : pending = [] ∧ inBlock = false := boundary
  generalize earlier : LineState.initial.ended 1 before = a
  generalize later : logicalLinesFrom ⟨[], start, false⟩ (1 + before.length) after = b
  have read : logicalLines source = a ++ b := by
    rw [logicalLines, lines, ← LineState.initial, logicalLinesFrom_append, carried, earlier, later]
  have read' : logicalLines source' = a ++ (⟨last, []⟩ :: b.map (·.moved inserted.length)) := by
    rw [logicalLines, lines', ← LineState.initial, List.append_assoc, logicalLinesFrom_append, carried, earlier,
      logicalLinesFrom_append, line, next, logicalLinesFrom_settled _ (start + inserted.length), List.singleton_append,
      ← later, ← logicalLinesFrom_add]
    rfl
  have stay : (scanLines [] a).map (Directive.movedPast before.length inserted.length) = scanLines [] a := by
    refine (List.map_congr_left fun d mem => if_pos ?_).trans (List.map_id _)
    obtain ⟨l, mem, at_⟩ := exists_of_mem_scanLines mem
    have := start_lt_of_mem_ended (.inr rfl) (earlier.symm ▸ mem)
    omega
  have move : (scanLines (chainsAfter [] a) b).map (Directive.movedPast before.length inserted.length) =
      (scanLines (chainsAfter [] a) b).map (·.moved inserted.length) := by
    refine List.map_congr_left fun d mem => if_neg ?_
    obtain ⟨l, mem, at_⟩ := exists_of_mem_scanLines mem
    have := le_start_of_mem (Nat.le_refl _) (.inr rfl) (later ▸ mem)
    omega
  rw [scanDirectives, scanDirectives, read, read', scanLines_append, scanLines_append, scanLines_empty_line,
    scanLines_map_moved, List.map_append, stay, move]

/-- Lines of one comment: directives, a condition, quotes, slashes, stars, and backslashes at the ends of lines. -/
def tangledComment : List Text := ["/*/ #if 0 \\", "\"// * / \\", "#include \"x.h\" \\**/"]

/-- What stands between the delimiters of that comment. -/
def tangledBody : Text := "/ #if 0 \\\n\"// * / \\\n#include \"x.h\" \\*"

theorem scanDirectives_insert_tangledComment :
    ¬ ['*', '/'] <:+: tangledBody ∧ Text.join "\n" tangledComment = '/' :: '*' :: tangledBody ++ ['*', '/'] ∧
    (LineState.initial.after 1 ["#include <a.h>"]).AtRest ∧
    scanDirectives "#include <a.h>\n#include \"b.h\"" = [⟨1, "a.h", .angled⟩, ⟨2, "b.h", .quoted⟩] ∧
    scanDirectives "#include <a.h>\n/*/ #if 0 \\\n\"// * / \\\n#include \"x.h\" \\**/\n#include \"b.h\"" =
      [⟨1, "a.h", .angled⟩, ⟨5, "b.h", .quoted⟩] := by
  have inner : ¬ ['*', '/'] <:+: tangledBody := by decide +kernel
  have spelled : Text.join "\n" tangledComment = '/' :: '*' :: tangledBody ++ ['*', '/'] := by decide
  have boundary : (LineState.initial.after 1 ["#include <a.h>"]).AtRest := by decide
  have found : scanDirectives "#include <a.h>\n#include \"b.h\"" = [⟨1, "a.h", .angled⟩, ⟨2, "b.h", .quoted⟩] := by
    decide
  have lines : Text.lines "#include <a.h>\n#include \"b.h\"" =
      ["#include <a.h>".toList] ++ ["#include \"b.h\"".toList] := by decide
  have lines' : Text.lines
      "#include <a.h>\n/*/ #if 0 \\\n\"// * / \\\n#include \"x.h\" \\**/\n#include \"b.h\"" =
      ["#include <a.h>".toList] ++ tangledComment ++ ["#include \"b.h\"".toList] := by decide
  have found' := scanDirectives_insert_comment lines lines' spelled inner boundary
  rw [found] at found'
  exact ⟨inner, spelled, boundary, found, found'⟩

end Insertion

end SolutionGraph.Include
