import SolutionGraph.Proofs.Include.Blanks
import SolutionGraph.Proofs.Include.Place

/-!
# Spliced lines

A preprocessor deletes every backslash before a line end, and the line end with it, before it looks at anything else.

* **splicing**: the lines of a spliced text (`splice`) are the spliced lines of the text (`splitOn_splice`);
* **reading**: what a scan reports depends on what stands between line feeds alone, so that carriage returns before them
  and an empty last line may be left (`target_scanDirectives`).
-/

namespace SolutionGraph.Include

open Text (trimEnd)

/-! ## Splicing -/

/-- Deletes every backslash that is followed by a line end, and the line end. -/
def splice : Text → Text
  | [] => []
  | '\\' :: '\n' :: rest => splice rest
  | c :: rest => c :: splice rest

/-- Puts each line that ends in a backslash before the next one, without the backslash. -/
def spliceLines : List Text → List Text
  | [] => []
  | [line] => [line]
  | line :: next :: rest =>
    match beforeBackslash? line with
    | some before => (spliceLines (next :: rest)).modifyHead (before ++ ·)
    | none => line :: spliceLines (next :: rest)

section Splice

variable {c : Char} {t line : Text} {rest : List Text}

theorem beforeBackslash?_concat (t : Text) (c : Char) :
    beforeBackslash? (t ++ [c]) = if c = '\\' then some t else none := by
  rw [beforeBackslash?, List.getLast?_concat, List.dropLast_concat]
  simp

theorem eq_of_beforeBackslash? {before : Text} (ends : beforeBackslash? t = some before) : t = before ++ ['\\'] := by
  rcases List.eq_nil_or_concat' t with rfl | ⟨t, c, rfl⟩
  · cases ends
  · rw [beforeBackslash?_concat] at ends
    split at ends
    · rename_i backslash
      rw [backslash, Option.some.inj ends]
    · cases ends

theorem beforeBackslash?_eq_none_iff : beforeBackslash? t = none ↔ t.getLast? ≠ some '\\' := by
  rw [beforeBackslash?]
  split <;> simp_all

theorem splitOn_cons_of_ne {separator : Char} (other : c ≠ separator) (t : Text) :
    Text.splitOn separator (c :: t) = (Text.splitOn separator t).modifyHead (c :: ·) := by
  rw [Text.splitOn, if_neg other]
  cases pieces : Text.splitOn separator t with
  | nil => exact absurd pieces (Text.splitOn_ne_nil separator t)
  | cons piece rest => rfl

theorem spliceLines_of_some {before next : Text} (ends : beforeBackslash? line = some before) (rest : List Text) :
    spliceLines (line :: next :: rest) = (spliceLines (next :: rest)).modifyHead (before ++ ·) := by
  rw [spliceLines, ends]

theorem spliceLines_of_none {next : Text} (ends : beforeBackslash? line = none) (rest : List Text) :
    spliceLines (line :: next :: rest) = line :: spliceLines (next :: rest) := by
  rw [spliceLines, ends]

theorem modifyHead_nil_append (lines : List Text) : lines.modifyHead (([] : Text) ++ ·) = lines := by
  cases lines <;> rfl

/-- A character in front of a line stays there, unless it is the backslash that the line ends in. -/
theorem spliceLines_cons_cons (line : Text) (rest : List Text) (other : line = [] → rest ≠ [] → c ≠ '\\') :
    spliceLines ((c :: line) :: rest) = (spliceLines (line :: rest)).modifyHead (c :: ·) := by
  cases rest with
  | nil => rfl
  | cons next rest =>
    rcases List.eq_nil_or_concat' line with rfl | ⟨t, d, rfl⟩
    · have ends : beforeBackslash? [c] = none :=
        (beforeBackslash?_concat [] c).trans (if_neg (other rfl (List.cons_ne_nil _ _)))
      rw [spliceLines_of_none ends, spliceLines_of_none rfl]
      rfl
    · have same := beforeBackslash?_concat (c :: t) d
      rw [List.cons_append] at same
      by_cases backslash : d = '\\'
      · rw [if_pos backslash] at same
        rw [spliceLines_of_some same, spliceLines_of_some ((beforeBackslash?_concat t d).trans (if_pos backslash)),
          List.modifyHead_modifyHead]
        rfl
      · rw [if_neg backslash] at same
        rw [spliceLines_of_none same, spliceLines_of_none ((beforeBackslash?_concat t d).trans (if_neg backslash))]
        rfl

/-- **The lines of a spliced text** are the spliced lines of the text. -/
theorem splitOn_splice (t : Text) : Text.splitOn '\n' (splice t) = spliceLines (Text.splitOn '\n' t) := by
  fun_induction splice t with
  | case1 => rfl
  | case2 rest ih =>
    have pieces : Text.splitOn '\n' ('\\' :: '\n' :: rest) = ['\\'] :: Text.splitOn '\n' rest := rfl
    rw [ih, pieces]
    cases split : Text.splitOn '\n' rest with
    | nil => exact absurd split (Text.splitOn_ne_nil _ _)
    | cons piece pieces =>
      rw [spliceLines_of_some rfl]
      exact (modifyHead_nil_append _).symm
  | case3 c rest alone ih =>
    by_cases newline : c = '\n'
    · subst newline
      have pieces : ∀ t, Text.splitOn '\n' ('\n' :: t) = [] :: Text.splitOn '\n' t := fun t => rfl
      rw [pieces, pieces, ih]
      cases split : Text.splitOn '\n' rest with
      | nil => exact absurd split (Text.splitOn_ne_nil _ _)
      | cons piece pieces => rw [spliceLines_of_none rfl]
    · rw [splitOn_cons_of_ne newline, splitOn_cons_of_ne newline, ih]
      cases split : Text.splitOn '\n' rest with
      | nil => exact absurd split (Text.splitOn_ne_nil _ _)
      | cons piece pieces =>
        refine (spliceLines_cons_cons piece pieces ?_).symm
        rintro rfl more rfl
        cases rest with
        | nil => exact more (List.cons.inj split).2.symm
        | cons d rest =>
          by_cases newline' : d = '\n'
          · exact alone rest rfl (by rw [newline'])
          · rw [splitOn_cons_of_ne newline'] at split
            cases pieces' : Text.splitOn '\n' rest with
            | nil => exact Text.splitOn_ne_nil _ _ pieces'
            | cons first others =>
              rw [pieces'] at split
              cases split

end Splice

/-! ## Reading line by line -/

/-- The place where the next line is read from. -/
def LineState.place (s : LineState) : Place := if s.inBlock then .block else .code

/-- What is kept of a text that is read from the start of the next line. -/
def LineState.kept (s : LineState) (t : Text) : Text := (stripFrom s.place t).1

section Lines

variable {s : LineState} {number : Nat} {kept line joined : Text}

theorem step_of_open (number : Nat) (strip : stripFrom s.place line = (kept, true)) :
    s.step number line =
      (none, ⟨s.pending ++ trimEnd kept, if s.pending.isEmpty then number else s.start, true⟩) := by
  unfold LineState.step stripComments
  rw [← LineState.place, strip]
  dsimp only
  cases beforeBackslash? (trimEnd kept) <;> rfl

theorem step_of_joined (number : Nat) (strip : stripFrom s.place line = (kept, false))
    (ends : beforeBackslash? (trimEnd kept) = some joined) :
    s.step number line =
      (none, ⟨s.pending ++ joined ++ " ", if s.pending.isEmpty then number else s.start, false⟩) := by
  unfold LineState.step stripComments
  rw [← LineState.place, strip]
  dsimp only
  rw [ends]

theorem step_of_ended (number : Nat) (strip : stripFrom s.place line = (kept, false))
    (ends : beforeBackslash? (trimEnd kept) = none) :
    s.step number line =
      (some ⟨if s.pending.isEmpty then number else s.start, s.pending ++ trimEnd kept⟩,
        ⟨[], if s.pending.isEmpty then number else s.start, false⟩) := by
  unfold LineState.step stripComments
  rw [← LineState.place, strip]
  dsimp only
  rw [ends]

theorem reported_append (chains : List Chain) (a b : List LogicalLine) :
    reported chains (a ++ b) = reported chains a ++ reported (chainsAfter chains a) b := by
  rw [reported, scanLines_append, List.map_append]
  rfl

/-- Where a logical line starts does not matter. -/
theorem reported_single (chains : List Chain) (start start' : Nat) {t t' : Text} (same : effect t = effect t') :
    reported chains [⟨start, t⟩] = reported chains [⟨start', t'⟩] := by
  rw [reported_cons, reported_cons, same]

/-- What is pending at the end of a text is the last logical line; it does not matter whether it is empty. -/
theorem reported_pending (chains : List Chain) (s : LineState) (number start : Nat) :
    reported chains (logicalLinesFrom s number []) = reported chains [⟨start, s.pending⟩] := by
  unfold logicalLinesFrom
  split
  · rename_i empty
    rw [List.isEmpty_iff.1 empty]
    exact (congrArg _ (scanLines_empty_line chains start [])).symm
  · exact reported_single chains _ _ rfl

theorem logicalLinesFrom_map_dropReturn (s : LineState) (number : Nat) (lines tail : List Text) :
    logicalLinesFrom s number (lines.map Text.dropReturn ++ tail) = logicalLinesFrom s number (lines ++ tail) := by
  induction lines generalizing s number with
  | nil => rfl
  | cons line lines ih =>
    have step : s.step number (Text.dropReturn line) = s.step number line := by
      unfold LineState.step
      rw [stripComments_dropReturn]
    rw [List.map_cons, List.cons_append, List.cons_append, logicalLinesFrom_cons, logicalLinesFrom_cons, step, ih]

/-- An empty line at the end of a text does not matter. -/
theorem reported_empty_line (chains : List Chain) (s : LineState) (number : Nat) :
    reported chains (logicalLinesFrom s number [[]]) = reported chains (logicalLinesFrom s number []) := by
  obtain ⟨pending, start, inBlock⟩ := s
  have same : effect (pending ++ trimEnd []) = effect pending := congrArg effect (List.append_nil pending)
  rw [logicalLinesFrom_cons, reported_pending chains _ number number]
  cases inBlock with
  | true =>
    have strip : stripFrom (LineState.mk pending start true).place [] = ([], true) := stripFrom.eq_1
    rw [step_of_open number strip]
    exact (reported_pending chains _ (number + 1) number).trans (reported_single chains _ _ same)
  | false =>
    have strip : stripFrom (LineState.mk pending start false).place [] = ([], false) := stripFrom.eq_7
    rw [step_of_ended number strip rfl]
    exact reported_single chains _ _ same

/-- **What is reported of a text** depends on what stands between its line feeds alone. -/
theorem target_scanDirectives (source : Text) : (scanDirectives source).map Directive.target =
    reported [] (logicalLinesFrom .initial 1 (Text.splitOn '\n' source)) := by
  obtain ⟨pieces, last, cut⟩ := (List.eq_nil_or_concat' (Text.splitOn '\n' source)).resolve_left
    (Text.splitOn_ne_nil _ _)
  have lines : Text.lines source = pieces.map Text.dropReturn ++ if last = [] then [] else [last] := by
    rw [Text.lines, cut, List.dropLast_concat, List.getLast?_concat]
    cases last <;> simp
  have read : (scanDirectives source).map Directive.target =
      reported [] (logicalLinesFrom .initial 1 (pieces ++ if last = [] then [] else [last])) := by
    rw [← logicalLinesFrom_map_dropReturn, ← lines]
    rfl
  rw [read, cut]
  split
  · rename_i empty
    rw [empty, logicalLinesFrom_append, logicalLinesFrom_append, reported_append, reported_append, reported_empty_line]
  · rfl

end Lines

end SolutionGraph.Include
