import Mathlib.Data.List.Basic
import SolutionGraph.Proofs.Include.Directive

/-!
# Physical lines and logical lines

A scan reads physical lines one after the other and carries a `LineState` from each to the next.

* **cutting**: what is read can be cut between any two physical lines (`logicalLinesFrom_append`);
* **numbers**: a logical line starts on one of the lines that it was read from (`start_lt_of_mem_ended`,
  `le_start_of_mem`), and lines that are numbered from elsewhere start elsewhere and are the same otherwise
  (`logicalLinesFrom_add`, `scanLines_map_moved`);
* **block comments**: nothing of a block comment is kept but one blank where it ends (`stripFrom_block_append_close`).
-/

namespace SolutionGraph.Include

/-! ## Cutting -/

/-- What is carried on at the start of a source text. -/
def LineState.initial : LineState := ⟨[], 1, false⟩

/-- What is carried on after physical lines that are numbered from `number` on. -/
def LineState.after (s : LineState) (number : Nat) : List Text → LineState
  | [] => s
  | line :: rest => (s.step number line).2.after (number + 1) rest

/-- The logical lines that physical lines end. -/
def LineState.ended (s : LineState) (number : Nat) : List Text → List LogicalLine
  | [] => []
  | line :: rest => (s.step number line).1.toList ++ (s.step number line).2.ended (number + 1) rest

theorem logicalLinesFrom_cons (s : LineState) (number : Nat) (line : Text) (rest : List Text) :
    logicalLinesFrom s number (line :: rest) =
      (s.step number line).1.toList ++ logicalLinesFrom (s.step number line).2 (number + 1) rest := rfl

/-- What is read can be cut between two physical lines. -/
theorem logicalLinesFrom_append (s : LineState) (number : Nat) (a b : List Text) :
    logicalLinesFrom s number (a ++ b) =
      s.ended number a ++ logicalLinesFrom (s.after number a) (number + a.length) b := by
  induction a generalizing s number with
  | nil => rfl
  | cons line a ih =>
    rw [List.cons_append, logicalLinesFrom_cons, ih, LineState.ended, LineState.after, List.append_assoc,
      List.length_cons, Nat.add_right_comm, Nat.add_assoc]

/-! ## Numbers -/

/-- A logical line that starts some lines further on. -/
def LogicalLine.moved (k : Nat) (line : LogicalLine) : LogicalLine := { line with start := line.start + k }

/-- A directive that stands some lines further on. -/
def Directive.moved (k : Nat) (d : Directive) : Directive := { d with line := d.line + k }

/-- The same state, some lines further on. -/
def LineState.moved (k : Nat) (s : LineState) : LineState := { s with start := s.start + k }

section Numbers

variable {s : LineState} {number : Nat} {lines : List Text}

theorem step_moved (s : LineState) (k number : Nat) (line : Text) :
    (s.moved k).step (number + k) line = ((s.step number line).1.map (·.moved k), (s.step number line).2.moved k) := by
  unfold LineState.step LineState.moved LogicalLine.moved
  dsimp only
  split <;> split <;> rfl

theorem logicalLinesFrom_add (s : LineState) (k number : Nat) (lines : List Text) :
    logicalLinesFrom (s.moved k) (number + k) lines = (logicalLinesFrom s number lines).map (·.moved k) := by
  induction lines generalizing s number with
  | nil =>
    unfold logicalLinesFrom LineState.moved
    dsimp only
    split <;> rfl
  | cons line lines ih =>
    rw [logicalLinesFrom_cons, logicalLinesFrom_cons, step_moved, Nat.add_right_comm, ih, List.map_append]
    cases (s.step number line).1 <;> rfl

/-- While nothing is pending it does not matter where the last logical line started. -/
theorem logicalLinesFrom_settled (start start' : Nat) (inBlock : Bool) (number : Nat) (lines : List Text) :
    logicalLinesFrom ⟨[], start, inBlock⟩ number lines = logicalLinesFrom ⟨[], start', inBlock⟩ number lines := by
  cases lines with
  | nil => rfl
  | cons line lines => rfl

theorem start_step (s : LineState) (number : Nat) (line : Text) :
    (s.step number line).2.start = if s.pending.isEmpty then number else s.start := by
  unfold LineState.step
  dsimp only
  split <;> rfl

theorem start_of_step {s : LineState} {number : Nat} {line : Text} {l : LogicalLine}
    (ended : (s.step number line).1 = some l) : l.start = if s.pending.isEmpty then number else s.start := by
  unfold LineState.step at ended
  dsimp only at ended
  split at ended <;> cases ended
  rfl

theorem start_lt_of_mem_ended (inside : s.start < number ∨ s.pending = []) {l : LogicalLine}
    (mem : l ∈ s.ended number lines) : l.start < number + lines.length := by
  induction lines generalizing s number with
  | nil => cases mem
  | cons line lines ih =>
    have first : (if s.pending.isEmpty then number else s.start) < number + 1 := by
      rcases inside with inside | empty
      · split <;> omega
      · simp [empty]
    rw [LineState.ended, List.mem_append, Option.mem_toList] at mem
    rw [List.length_cons]
    rcases mem with ended | mem
    · rw [start_of_step ended]
      omega
    · have := ih (.inl ((start_step s number line).symm ▸ first)) mem
      omega

theorem le_start_of_mem {least : Nat} (least_le : least ≤ number) (inside : least ≤ s.start ∨ s.pending = [])
    {l : LogicalLine} (mem : l ∈ logicalLinesFrom s number lines) : least ≤ l.start := by
  induction lines generalizing s number with
  | nil =>
    unfold logicalLinesFrom at mem
    split at mem
    · cases mem
    · rename_i some
      obtain rfl := List.mem_singleton.1 mem
      exact inside.resolve_right fun empty => some (by rw [empty]; rfl)
  | cons line lines ih =>
    have first : least ≤ if s.pending.isEmpty then number else s.start := by
      rcases inside with inside | empty
      · split <;> omega
      · simp [empty, least_le]
    rw [logicalLinesFrom_cons, List.mem_append, Option.mem_toList] at mem
    rcases mem with ended | mem
    · exact (start_of_step ended).symm ▸ first
    · exact ih (Nat.le_succ_of_le least_le) (.inl ((start_step s number line).symm ▸ first)) mem

/-- A reported directive stands where a logical line starts. -/
theorem exists_of_mem_scanLines {chains : List Chain} {lines : List LogicalLine} {d : Directive}
    (mem : d ∈ scanLines chains lines) : ∃ l ∈ lines, d.line = l.start := by
  induction lines generalizing chains with
  | nil => cases mem
  | cons line lines ih =>
    rw [scanLines_cons, List.mem_append] at mem
    rcases mem with here | later
    · refine ⟨line, List.mem_cons_self, ?_⟩
      split at here
      · exact line.line_of_include? (Option.mem_toList.1 here)
      · cases here
    · obtain ⟨l, mem, same⟩ := ih later
      exact ⟨l, List.mem_cons_of_mem _ mem, same⟩

theorem scanLines_map_moved (k : Nat) (chains : List Chain) (lines : List LogicalLine) :
    scanLines chains (lines.map (·.moved k)) = (scanLines chains lines).map (·.moved k) := by
  induction lines generalizing chains with
  | nil => rfl
  | cons line lines ih =>
    have role : (line.moved k).role = line.role := rfl
    have held : (line.moved k).include? = line.include?.map (·.moved k) := by
      rw [LogicalLine.include?_eq, LogicalLine.include?_eq line, Option.map_map]
      rfl
    rw [List.map_cons, scanLines_cons, scanLines_cons, ih, role, held, List.map_append]
    split
    · cases line.include? <;> rfl
    · rfl

end Numbers

/-! ## Block comments -/

section Blocks

variable {b t : Text}

theorem stripFrom_block_of_not_infix (inner : ¬ ['*', '/'] <:+: t) : stripFrom .block t = ([], true) := by
  induction t with
  | nil => rw [stripFrom]
  | cons c t ih =>
    rw [stripFrom]
    · exact ih fun found => inner (found.trans (List.suffix_cons c t).isInfix)
    · rintro rest rfl rfl
      exact inner ⟨[], rest, rfl⟩

theorem stripFrom_block_append_close (inner : ¬ ['*', '/'] <:+: b) (rest : Text) :
    stripFrom .block (b ++ '*' :: '/' :: rest) = (' ' :: (stripFrom .code rest).1, (stripFrom .code rest).2) := by
  induction b with
  | nil => rw [List.nil_append, stripFrom]
  | cons c b ih =>
    rw [List.cons_append, stripFrom]
    · exact ih fun found => inner (found.trans (List.suffix_cons c b).isInfix)
    · rintro tail rfl same
      cases b with
      | nil => cases same
      | cons d b =>
        obtain rfl := (List.cons.inj same).1
        exact inner ⟨[], b, rfl⟩

end Blocks

end SolutionGraph.Include
