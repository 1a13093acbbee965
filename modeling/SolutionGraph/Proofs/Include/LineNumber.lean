import SolutionGraph.Proofs.Include.Splice

/-!
# Where logical lines stand

Every logical line starts on a physical line of its own, and is made of what the physical lines from there up to the start of
the next one add to it.

* **additions**: what a physical line adds is left of it when comments are taken out (`added`); but for blanks, it is part of
  that line (`solid_added_sublist`);
* **one line** (`Placed.step`): at any time, the pending text is what the lines since its start have added. A line that adds
  nothing where nothing is pending, inside a block comment, belongs to no logical line, and the next one may start behind it;
* **all lines** (`standInTurn_logicalLines`): so logical lines stand one behind the other, and their directives do too
  (`scanDirectives_standsInOrder`).
-/

namespace SolutionGraph.Include

/-! ## What a physical line adds -/

/-- What a physical line adds to a logical line: what is left of it without comments, where a backslash that ends it becomes a
blank unless a block comment is open. -/
def added (inBlock : Bool) (line : Text) : Text :=
  match beforeBackslash? (stripComments inBlock line).1, (stripComments inBlock line).2 with
  | some joined, false => joined ++ " "
  | _, _ => (stripComments inBlock line).1

/-- What each of the physical lines adds. -/
def additions (inBlock : Bool) : List Text → List Text
  | [] => []
  | line :: rest => added inBlock line :: additions (stripComments inBlock line).2 rest

/-- What the lines add from number `start` on and before number `stop`, where the first line has number one. -/
def addedBetween (pieces : List Text) (start stop : Nat) : Text := ((pieces.take (stop - 1)).drop (start - 1)).flatten

/-- A text without its blanks. -/
def solid (t : Text) : Text := t.filter fun c => !Text.isBlank c

section Additions

variable {pieces : List Text} {piece : Text} {start stop : Nat}

theorem addedBetween_self (pieces : List Text) (start : Nat) : addedBetween pieces start start = [] := by
  rw [addedBetween, List.drop_eq_nil_of_le (List.length_take_le _ _), List.flatten_nil]

theorem addedBetween_succ (first : 1 ≤ start) (le : start ≤ stop) (here : pieces[stop - 1]? = some piece) :
    addedBetween pieces start (stop + 1) = addedBetween pieces start stop ++ piece := by
  obtain ⟨n, rfl⟩ : ∃ n, stop = n + 1 := ⟨stop - 1, by omega⟩
  have inside : n < pieces.length := (List.getElem?_eq_some_iff.1 here).1
  rw [Nat.add_sub_cancel] at here
  have room : start - 1 ≤ (pieces.take n).length := by
    rw [List.length_take]
    omega
  rw [addedBetween, addedBetween, Nat.add_sub_cancel, Nat.add_sub_cancel, List.take_add_one, here,
    List.drop_append_of_le_length room, List.flatten_append]
  simp

theorem solid_cons_sublist {a t : Text} (c : Char) (part : (solid a).Sublist t) : (solid (c :: a)).Sublist (c :: t) := by
  rw [solid, List.filter_cons]
  split
  · exact part.cons_cons c
  · exact part.cons c

theorem solid_stripFrom_sublist (p : Place) (t : Text) : (solid (stripFrom p t).1).Sublist t := by
  fun_induction stripFrom p t with
  | case1 => exact .slnil
  | case2 rest r ih => exact (ih.cons '/').cons '*'
  | case3 c rest inside ih => exact ih.cons c
  | case4 => exact .slnil
  | case5 d c rest r ih => exact solid_cons_sublist '\\' (solid_cons_sublist c ih)
  | case6 d c rest single r ih => exact solid_cons_sublist c ih
  | case7 => exact .slnil
  | case8 rest => exact List.nil_sublist _
  | case9 rest ih => exact (ih.cons '*').cons '/'
  | case10 c rest notLine notBlock r ih => exact solid_cons_sublist c ih

/-- Blanks aside, what a line adds is part of the line. -/
theorem solid_added_sublist (inBlock : Bool) (line : Text) : (solid (added inBlock line)).Sublist line := by
  have stripped : (solid (stripComments inBlock line).1).Sublist line := by
    obtain ⟨blanks, whole, -⟩ := Text.exists_append_trimEnd (stripFrom (if inBlock then .block else .code) line).1
    refine List.Sublist.trans ?_ (solid_stripFrom_sublist (if inBlock then .block else .code) line)
    rw [whole]
    exact (List.sublist_append_left _ _).filter _
  unfold added
  split
  · rename_i joined ends _
    refine List.Sublist.trans ?_ stripped
    rw [eq_of_beforeBackslash? ends, solid, solid, List.filter_append, List.filter_append]
    exact (List.Sublist.refl _).append (List.nil_sublist _)
  · exact stripped

theorem additions_sublist (inBlock : Bool) (lines : List Text) :
    List.Forall₂ (fun piece line => (solid piece).Sublist line) (additions inBlock lines) lines := by
  induction lines generalizing inBlock with
  | nil => exact .nil
  | cons line lines ih => exact .cons (solid_added_sublist inBlock line) (ih _)

end Additions

/-! ## Logical lines one behind the other -/

/-- Where the first of some logical lines starts, or else the given end. -/
def nextStart (stop : Nat) (lines : List LogicalLine) : Nat := (lines.head?.map (·.start)).getD stop

/-- Logical lines stand one behind the other: each starts before the next one, the last one before `stop`, and is made of what
the physical lines from its start up to there add. -/
def StandInTurn (pieces : List Text) (stop : Nat) : List LogicalLine → Prop
  | [] => True
  | l :: later => l.start < nextStart stop later ∧ l.text = addedBetween pieces l.start (nextStart stop later) ∧
    StandInTurn pieces stop later

section Turns

variable {pieces : List Text} {stop : Nat} {ls : List LogicalLine} {l : LogicalLine}

theorem nextStart_concat (stop : Nat) (ls : List LogicalLine) (l : LogicalLine) :
    nextStart stop (ls ++ [l]) = nextStart l.start ls := by
  cases ls <;> rfl

theorem standInTurn_concat : StandInTurn pieces stop (ls ++ [l]) ↔
    StandInTurn pieces l.start ls ∧ l.start < stop ∧ l.text = addedBetween pieces l.start stop := by
  induction ls with
  | nil => simp [StandInTurn, nextStart]
  | cons l' ls ih => rw [List.cons_append, StandInTurn, StandInTurn, nextStart_concat, ih, and_assoc, and_assoc]

/-- A line that adds nothing may be left out behind the last logical line. -/
theorem StandInTurn.skip (turns : StandInTurn pieces stop ls) (first : ∀ l ∈ ls, 1 ≤ l.start)
    (here : pieces[stop - 1]? = some []) : StandInTurn pieces (stop + 1) ls := by
  rcases List.eq_nil_or_concat' ls with rfl | ⟨ls, l, rfl⟩
  · trivial
  · obtain ⟨before, less, text⟩ := standInTurn_concat.1 turns
    refine standInTurn_concat.2 ⟨before, Nat.lt_succ_of_lt less, ?_⟩
    rw [addedBetween_succ (first l (List.mem_append_right ls List.mem_cons_self)) less.le here, List.append_nil, text]

theorem StandInTurn.nextStart_le (turns : StandInTurn pieces stop ls) : nextStart stop ls ≤ stop := by
  induction ls with
  | nil => exact Nat.le_refl stop
  | cons l later ih => exact (turns.1.le.trans (ih turns.2.2))

theorem StandInTurn.lt_stop (turns : StandInTurn pieces stop ls) (mem : l ∈ ls) : l.start < stop := by
  induction ls with
  | nil => cases mem
  | cons l' later ih =>
    rcases List.mem_cons.1 mem with rfl | mem
    · exact turns.1.trans_le turns.2.2.nextStart_le
    · exact ih turns.2.2 mem

theorem StandInTurn.nextStart_le_of_mem (turns : StandInTurn pieces stop ls) (mem : l ∈ ls) :
    nextStart stop ls ≤ l.start := by
  induction ls with
  | nil => cases mem
  | cons l' later ih =>
    rcases List.mem_cons.1 mem with rfl | mem
    · exact Nat.le_refl l.start
    · exact turns.1.le.trans (ih turns.2.2 mem)

theorem StandInTurn.pairwise (turns : StandInTurn pieces stop ls) : ls.Pairwise fun l l' => l.start < l'.start := by
  induction ls with
  | nil => exact .nil
  | cons l later ih =>
    exact .cons (fun l' mem => turns.1.trans_le (turns.2.2.nextStart_le_of_mem mem)) (ih turns.2.2)

theorem StandInTurn.text_eq {before later : List LogicalLine} (turns : StandInTurn pieces stop (before ++ l :: later)) :
    l.text = addedBetween pieces l.start (nextStart stop later) := by
  induction before with
  | nil => exact turns.2.1
  | cons l' before ih => exact ih turns.2.2

end Turns

/-! ## One line -/

/-- Where the pending logical line starts or, if nothing is pending, where the next one may start. -/
def LineState.opening (s : LineState) (number : Nat) : Nat := if s.pending.isEmpty then number else s.start

/-- What is read before line `number` stands where it should: the logical lines so far stand one behind the other, and what is
pending is what the lines since its start have added. -/
structure Placed (pieces : List Text) (done : List LogicalLine) (s : LineState) (number : Nat) : Prop where
  /-- Lines have numbers from one on. -/
  first : ∀ l ∈ done, 1 ≤ l.start
  /-- So has the pending line. -/
  one_le : 1 ≤ s.opening number
  /-- It starts on a line that was read, or nothing is pending. -/
  le : s.opening number ≤ number
  /-- The lines before it stand one behind the other up to its start. -/
  turns : StandInTurn pieces (s.opening number) done
  /-- Its text so far was added since its start. -/
  pending : s.pending = addedBetween pieces (s.opening number) number

section Lines

variable {pieces : List Text} {done : List LogicalLine} {s : LineState} {number : Nat}

/-- A line adds to what is pending, and then it may end the logical line. -/
theorem step_cases (s : LineState) (number : Nat) (line : Text) :
    s.step number line =
      (none, ⟨s.pending ++ added s.inBlock line, s.opening number, (stripComments s.inBlock line).2⟩) ∨
    s.step number line = (some ⟨s.opening number, s.pending ++ added s.inBlock line⟩,
      ⟨[], s.opening number, (stripComments s.inBlock line).2⟩) := by
  unfold LineState.step added LineState.opening
  dsimp only
  split
  · rename_i joined ends closed
    rw [ends, closed, List.append_assoc]
    exact .inl rfl
  · rename_i open_
    rw [open_]
    cases beforeBackslash? (stripComments s.inBlock line).1 <;> exact .inl rfl
  · rename_i whole closed
    rw [whole, closed]
    exact .inr rfl

theorem opening_of_settled (empty : s.pending = []) (number : Nat) : s.opening number = number := by
  rw [LineState.opening, empty]
  rfl

theorem opening_of_pending (some : s.pending ≠ []) (number : Nat) : s.opening number = s.start :=
  if_neg fun empty => some (List.isEmpty_iff.1 empty)

/-- Where nothing is pending, the lines so far may be followed by the next one. -/
theorem placed_of_settled (empty : s.pending = []) (one_le : 1 ≤ number) (first : ∀ l ∈ done, 1 ≤ l.start)
    (turns : StandInTurn pieces number done) : Placed pieces done s number := by
  have opening : s.opening number = number := opening_of_settled empty number
  exact ⟨first, opening.symm ▸ one_le, opening.le, opening.symm ▸ turns,
    by rw [empty, opening, addedBetween_self]⟩

/-- **One more line** leaves everything where it should be. -/
theorem Placed.step (placed : Placed pieces done s number) {line : Text}
    (here : pieces[number - 1]? = some (added s.inBlock line)) :
    Placed pieces (done ++ (s.step number line).1.toList) (s.step number line).2 (number + 1) := by
  have text : s.pending ++ added s.inBlock line = addedBetween pieces (s.opening number) (number + 1) := by
    rw [addedBetween_succ placed.one_le placed.le here, ← placed.pending]
  rcases step_cases s number line with going | ended
  · rw [going, Option.toList_none, List.append_nil]
    by_cases nothing : s.pending ++ added s.inBlock line = []
    · -- the line is inside a block comment, between two logical lines
      obtain ⟨empty, blank⟩ := List.append_eq_nil_iff.1 nothing
      rw [blank] at here
      have turns := placed.turns
      rw [opening_of_settled empty] at turns
      exact placed_of_settled nothing (Nat.le_add_left 1 number) placed.first (turns.skip placed.first here)
    · have opening : LineState.opening ⟨s.pending ++ added s.inBlock line, s.opening number, (stripComments s.inBlock line).2⟩
          (number + 1) = s.opening number := opening_of_pending nothing (number + 1)
      refine ⟨placed.first, ?_, ?_, ?_, ?_⟩
      · exact opening.symm ▸ placed.one_le
      · exact opening.symm ▸ Nat.le_succ_of_le placed.le
      · exact opening.symm ▸ placed.turns
      · rw [opening]
        exact text
  · rw [ended, Option.toList_some]
    refine placed_of_settled rfl (Nat.le_add_left 1 number) ?_ ?_
    · exact List.forall_mem_append.2 ⟨placed.first, List.forall_mem_singleton.2 placed.one_le⟩
    · exact standInTurn_concat.2 ⟨placed.turns, Nat.lt_succ_of_le placed.le, text⟩

theorem inBlock_step (s : LineState) (number : Nat) (line : Text) :
    (s.step number line).2.inBlock = (stripComments s.inBlock line).2 := by
  rcases step_cases s number line with going | ended
  · rw [going]
  · rw [ended]

/-- **All lines** that are left are read into logical lines that stand one behind the other. -/
theorem Placed.run (placed : Placed pieces done s number) {lines : List Text}
    (ahead : pieces.drop (number - 1) = additions s.inBlock lines) :
    StandInTurn pieces (number + lines.length) (done ++ logicalLinesFrom s number lines) := by
  induction lines generalizing done s number with
  | nil =>
    have turns := placed.turns
    have text := placed.pending
    rw [logicalLinesFrom, List.length_nil, Nat.add_zero]
    split
    · rename_i empty
      rw [opening_of_settled (List.isEmpty_iff.1 empty)] at turns
      rwa [List.append_nil]
    · rename_i some
      have pending : s.pending ≠ [] := fun empty => some (List.isEmpty_iff.2 empty)
      have le := placed.le
      rw [opening_of_pending pending] at turns text le
      have less : s.start < number := by
        refine Nat.lt_of_le_of_ne le fun same => pending ?_
        rw [text, same, addedBetween_self]
      exact standInTurn_concat.2 ⟨turns, less, text⟩
  | cons line lines ih =>
    have one_le := placed.one_le.trans placed.le
    have here : pieces[number - 1]? = some (added s.inBlock line) := by
      rw [← List.head?_drop, ahead]
      rfl
    have ahead' : pieces.drop (number + 1 - 1) = additions (s.step number line).2.inBlock lines := by
      rw [inBlock_step, Nat.add_sub_cancel, ← Nat.sub_add_cancel one_le, ← List.drop_drop, ahead]
      rfl
    rw [logicalLinesFrom_cons, ← List.append_assoc, List.length_cons, Nat.add_comm lines.length, ← Nat.add_assoc]
    exact ih (placed.step here) ahead'

end Lines

/-! ## All lines -/

theorem standInTurn_logicalLines (source : Text) :
    StandInTurn (additions false (Text.lines source)) (1 + (Text.lines source).length) (logicalLines source) := by
  have start : Placed (additions false (Text.lines source)) [] .initial 1 :=
    placed_of_settled rfl (Nat.le_refl 1) (fun l mem => nomatch mem) trivial
  exact start.run rfl

/-- Directives are reported in the order of the logical lines that they stand on. -/
theorem map_line_scanLines_sublist (chains : List Chain) (lines : List LogicalLine) :
    ((scanLines chains lines).map (·.line)).Sublist (lines.map (·.start)) := by
  induction lines generalizing chains with
  | nil => exact .slnil
  | cons line lines ih =>
    rw [scanLines_cons, List.map_append]
    have here : ((if isActive chains then line.include?.toList else []).map (·.line)).Sublist [line.start] := by
      split
      · cases held : line.include? with
        | none => exact List.nil_sublist _
        | some d =>
          rw [Option.toList_some, List.map_singleton, line.line_of_include? held]
      · exact List.nil_sublist _
    exact here.append (ih (line.role.step chains))

/-- Logical lines and directives stand on lines of the text, each behind the one before. -/
structure StandsInOrder (source : Text) : Prop where
  /-- Each directive stands on a later line than the one before. -/
  directives : (scanDirectives source).Pairwise fun d d' => d.line < d'.line
  /-- It is one of the physical lines, which have numbers from one on. -/
  directives_inside : ∀ d ∈ scanDirectives source, 1 ≤ d.line ∧ d.line ≤ (Text.lines source).length
  /-- Each logical line starts on a later physical line than the one before. -/
  lines : (logicalLines source).Pairwise fun l l' => l.start < l'.start
  /-- It starts on one of the physical lines. -/
  lines_inside : ∀ l ∈ logicalLines source, 1 ≤ l.start ∧ l.start ≤ (Text.lines source).length
  /-- It is made of what the physical lines add from its start on and before the start of the next one, or up to the end. -/
  text : ∀ before l later, logicalLines source = before ++ l :: later → l.text =
    addedBetween (additions false (Text.lines source)) l.start (nextStart (1 + (Text.lines source).length) later)
  /-- What a physical line adds is part of that line, blanks aside. -/
  additions : List.Forall₂ (fun piece line => (solid piece).Sublist line) (additions false (Text.lines source))
    (Text.lines source)

/-- **Directives stand in order, inside the text.** -/
theorem scanDirectives_standsInOrder (source : Text) : StandsInOrder source := by
  have turns := standInTurn_logicalLines source
  have inside : ∀ l ∈ logicalLines source, 1 ≤ l.start ∧ l.start ≤ (Text.lines source).length := fun l mem =>
    ⟨le_start_of_mem (Nat.le_refl 1) (.inr rfl) mem, by have := turns.lt_stop mem; omega⟩
  have ordered : (scanDirectives source).map (·.line) |>.Pairwise (· < ·) :=
    (List.pairwise_map.2 turns.pairwise).sublist (map_line_scanLines_sublist [] (logicalLines source))
  refine ⟨List.pairwise_map.1 ordered, fun d mem => ?_, turns.pairwise, inside, ?_, additions_sublist false _⟩
  · obtain ⟨l, mem, here⟩ := exists_of_mem_scanLines mem
    exact here ▸ inside l mem
  · rintro before l later split
    exact (split ▸ turns).text_eq

/-- Continuations, comments over several lines and a comment that is never closed. -/
example : scanDirectives
    "#include \\\n \"a.h\"\n/* #\nx\n*/ #include <b.h> /*\n\n*/\n\\\n#include \"d.h\"\n/*\n#include \"e.h\"" =
      [⟨1, "a.h", .quoted⟩, ⟨5, "b.h", .angled⟩, ⟨8, "d.h", .quoted⟩] := by
  decide

end SolutionGraph.Include
