import SolutionGraph.Proofs.Text.Lines
import SolutionGraph.Solution.Listing

/-!
# Blocks of a solution file

Lines stand outside all blocks, in the block of a project, in the global block, or in a section of these (`Block`). Where a
line stands is told by the lines before it alone (`Block.next`), whatever the reader makes of them.

* **lines**: the reader takes in one line after the other (`takeLines_cons`, `takeLines_append`), and blanks around a line do
  not matter to it (`takeLines_congr`);
* **blocks**: the reader keeps to the blocks (`block_takeLines`), and a project is read where it stands outside them
  (`atTop_of_isPrefixOf`);
* **files**: the lines of a file are taken in from its start, and a block that is open at its end is a fault
  (`read_eq_finish`).
-/

namespace SolutionGraph.Solution

/-- Where a line of a solution file stands. -/
inductive Block where
  | top
  | project
  | projectSection
  | global
  | globalSection
  deriving DecidableEq, Repr

/-- Where the next line stands after a trimmed one. -/
def Block.next (b : Block) (line : Text) : Block :=
  match b with
  | .top =>
    if line = "Global" then .global else if "Project(".toList.isPrefixOf line then .project else .top
  | .project =>
    if line = "EndProject" then .top else if (sectionName? line).isSome then .projectSection else .project
  | .projectSection => if line = "EndProjectSection" then .project else .projectSection
  | .global => if line = "EndGlobal" then .top else if (sectionName? line).isSome then .globalSection else .global
  | .globalSection => if line = "EndGlobalSection" then .global else .globalSection

/-- Where the next line stands after several ones. -/
def Block.after (b : Block) (raws : List Text) : Block := raws.foldl (fun b raw => b.next (Text.trim raw)) b

/-- The block that a reader is in. -/
def Place.block : Place → Block
  | .top => .top
  | .project _ => .project
  | .projectSection _ _ => .projectSection
  | .global => .global
  | .globalSection _ => .globalSection

namespace Listing

/-! ## One line after the other -/

/-- Takes in one line as it stands. -/
def takeRaw (l : Listing) (place : Place) (number : Nat) (raw : Text) : Listing × Place :=
  if isIdle place (Text.trim raw) then (l, place) else l.takeLine place number (Text.trim raw)

section Lines

variable {l l' : Listing} {place place' : Place} {number : Nat}

theorem takeLines_cons (raw : Text) (rest : List Text) : l.takeLines place number (raw :: rest) =
    (l.takeRaw place number raw).1.takeLines (l.takeRaw place number raw).2 (number + 1) rest := by
  rw [takeLines, takeRaw]
  split <;> rfl

theorem takeLines_step {raw : Text} (step : l.takeRaw place number raw = (l', place')) (rest : List Text) :
    l.takeLines place number (raw :: rest) = l'.takeLines place' (number + 1) rest := by
  rw [takeLines_cons, step]

theorem takeLines_append (xs ys : List Text) : l.takeLines place number (xs ++ ys) =
    (l.takeLines place number xs).1.takeLines (l.takeLines place number xs).2 (number + xs.length) ys := by
  induction xs generalizing l place number with
  | nil => rfl
  | cons raw xs ih =>
    rw [List.cons_append, takeLines_cons, ih, ← takeLines_cons, List.length_cons, Nat.add_assoc, Nat.add_comm 1]

/-- The reader sees the trimmed lines only. -/
theorem takeLines_congr {xs ys : List Text} (same : xs.map Text.trim = ys.map Text.trim) :
    l.takeLines place number xs = l.takeLines place number ys := by
  induction xs generalizing l place number ys with
  | nil =>
    obtain rfl : ys = [] := List.map_eq_nil_iff.1 same.symm
    rfl
  | cons x xs ih =>
    cases ys with
    | nil => cases same
    | cons y ys =>
      rw [List.map_cons, List.map_cons, List.cons.injEq] at same
      have first : l.takeRaw place number x = l.takeRaw place number y := by rw [takeRaw, same.1, takeRaw]
      rw [takeLines_cons, takeLines_cons, first]
      exact ih same.2

end Lines

/-! ## The reader keeps to the blocks -/

theorem isPrefixOf_headerStart {line version : Text} (h : headerVersion? line = some version) :
    headerStart.isPrefixOf line := by
  obtain ⟨rest, start, _⟩ := Option.bind_eq_some_iff.1 h
  rw [Text.dropStart?] at start
  split at start
  · assumption
  · cases start

/-- A line with a given start does not have another one that differs in its first character. -/
theorem isPrefixOf_eq_false {c d : Char} {start line : Text} (other : Text) (differ : c ≠ d)
    (h : (c :: start).isPrefixOf line) : (d :: other).isPrefixOf line = false := by
  cases line with
  | nil => rfl
  | cons x line =>
    rw [List.isPrefixOf_cons_cons, Bool.and_eq_true, beq_iff_eq] at h
    rw [List.isPrefixOf_cons_cons, ← h.1, beq_eq_false_iff_ne.2 (Ne.symm differ), Bool.false_and]

/-- A line that starts like none of those that open a block opens none. -/
theorem next_top_of_isPrefixOf {c : Char} {start line : Text} (noGlobal : c ≠ 'G') (noProject : c ≠ 'P')
    (h : (c :: start).isPrefixOf line) : Block.top.next line = .top := by
  have apart : line ≠ "Global" := by
    rintro rfl
    exact absurd (isPrefixOf_eq_false [] noGlobal h) (by decide)
  have noEntry : "Project(".toList.isPrefixOf line = false :=
    isPrefixOf_eq_false (String.toList "roject(") noProject h
  rw [Block.next, if_neg apart, noEntry]
  rfl

theorem block_atTop (l : Listing) (number : Nat) (line : Text) : (l.atTop number line).2.block = Block.top.next line := by
  unfold atTop
  split
  · rename_i version found
    exact (next_top_of_isPrefixOf (by decide) (by decide) (isPrefixOf_headerStart found)).symm
  · split
    · rename_i environment
      exact (next_top_of_isPrefixOf (by decide) (by decide) environment).symm
    · unfold Block.next
      split
      · rfl
      · split
        · split <;> rfl
        · rfl

/-- Outside blocks, a line that starts like the one of a project is read as such. -/
theorem atTop_of_isPrefixOf (l : Listing) (number : Nat) {line : Text} (h : "Project(".toList.isPrefixOf line) :
    l.atTop number line = match readEntry line with
      | .ok entry => (l, .project (some entry))
      | .error fault => (l.report number fault, .project none) := by
  have start : ('P' :: String.toList "roject(").isPrefixOf line := h
  have noHeader : headerVersion? line = none := by
    rw [Option.eq_none_iff_forall_ne_some]
    intro version found
    have header : ('M' :: headerStart.tail).isPrefixOf line := isPrefixOf_headerStart found
    exact absurd start (Bool.eq_false_iff.1 (isPrefixOf_eq_false _ (by decide) header))
  have noEnvironment : "VisualStudioVersion".toList.isPrefixOf line = false :=
    isPrefixOf_eq_false (String.toList "isualStudioVersion") (by decide) start
  have noGlobal : line ≠ "Global" := by
    rintro rfl
    exact absurd h (by decide)
  unfold atTop
  cases readEntry line with
  | ok entry => simp only [noHeader, noEnvironment, Bool.false_eq_true, if_false, if_neg noGlobal, h, if_true]
  | error fault => simp only [noHeader, noEnvironment, Bool.false_eq_true, if_false, if_neg noGlobal, h, if_true]

theorem next_top_eq_project {line : Text} (h : "Project(".toList.isPrefixOf line) : Block.top.next line = .project := by
  rw [← block_atTop empty 0, atTop_of_isPrefixOf empty 0 h]
  cases readEntry line <;> rfl

/-- **One line** leads the reader to the block that the line leads to. -/
theorem block_takeLine (l : Listing) (place : Place) (number : Nat) (line : Text) :
    (l.takeLine place number line).2.block = place.block.next line := by
  cases place with
  | top => exact l.block_atTop number line
  | project entry =>
    show (l.inProject entry line).2.block = Block.project.next line
    unfold inProject Block.next
    by_cases stop : line = "EndProject"
    · rw [if_pos stop, if_pos stop]
      rfl
    · rw [if_neg stop, if_neg stop]
      cases sectionName? line <;> rfl
  | projectSection entry kind =>
    show (l.inProjectSection number entry kind line).2.block = Block.projectSection.next line
    unfold inProjectSection Block.next
    by_cases stop : line = "EndProjectSection"
    · rw [if_pos stop, if_pos stop]
      rfl
    · rw [if_neg stop, if_neg stop]
      split
      · simp only
        split <;> rfl
      · rfl
  | global =>
    show (l.inGlobal line).2.block = Block.global.next line
    unfold inGlobal Block.next
    by_cases stop : line = "EndGlobal"
    · rw [if_pos stop, if_pos stop]
      rfl
    · rw [if_neg stop, if_neg stop]
      cases sectionName? line <;> rfl
  | globalSection kind =>
    show (l.inGlobalSection number kind line).2.block = Block.globalSection.next line
    unfold inGlobalSection Block.next
    by_cases stop : line = "EndGlobalSection"
    · rw [if_pos stop, if_pos stop]
      rfl
    · rw [if_neg stop, if_neg stop]
      split <;> rfl

theorem next_nil (b : Block) : b.next [] = b := by
  cases b <;> decide

/-- Inside blocks, every line says something that is not blank. -/
theorem isIdle_eq_false {place : Place} {line : Text} (some : line ≠ []) (inside : place.block ≠ .top) :
    isIdle place line = false := by
  cases line with
  | nil => exact absurd rfl some
  | cons c line =>
    cases place with
    | top => exact absurd rfl inside
    | project | projectSection | global | globalSection => rfl

/-- A line that says nothing leads nowhere. -/
theorem next_of_isIdle {place : Place} {line : Text} (idle : isIdle place line) : place.block.next line = place.block := by
  cases line with
  | nil => exact next_nil _
  | cons c line =>
    cases place with
    | top =>
      have comment : c = '#' := by simpa [isIdle] using idle
      subst comment
      have start : ['#'].isPrefixOf ('#' :: line) := by simp
      exact next_top_of_isPrefixOf (by decide) (by decide) start
    | project | projectSection | global | globalSection => cases idle

theorem block_takeRaw (l : Listing) (place : Place) (number : Nat) (raw : Text) :
    (l.takeRaw place number raw).2.block = place.block.next (Text.trim raw) := by
  unfold takeRaw
  split
  · rename_i idle
    exact (next_of_isIdle idle).symm
  · exact l.block_takeLine place number _

/-- **The reader keeps to the blocks.** -/
theorem block_takeLines (l : Listing) (place : Place) (number : Nat) (raws : List Text) :
    (l.takeLines place number raws).2.block = place.block.after raws := by
  induction raws generalizing l place number with
  | nil => rfl
  | cons raw raws ih => rw [takeLines_cons, ih, block_takeRaw, Block.after, Block.after, List.foldl_cons]

/-! ## The whole file -/

/-- The lines of a solution file, without the byte order marks at its start. -/
def linesOf (source : Text) : List Text := Text.lines (source.dropWhile (· = Char.ofNat 0xFEFF))

/-- What a file of that many lines says if the reader is in a given place at its end. -/
def finish (total : Nat) (l : Listing) (place : Place) : Listing :=
  if place.block = .top then l else l.report total .unexpectedEnd

theorem read_eq_finish (source : Text) : read source =
    finish (Text.lines source).length (empty.takeLines .top 1 (linesOf source)).1
      (empty.takeLines .top 1 (linesOf source)).2 := by
  unfold read linesOf
  cases empty.takeLines .top 1 (Text.lines (source.dropWhile (· = Char.ofNat 0xFEFF))) with
  | mk l place => cases place <;> rfl

/-- Byte order marks end no line. -/
theorem length_lines_eq {source : Text} (some : linesOf source ≠ []) :
    (Text.lines source).length = (linesOf source).length := by
  have same : '\n' ∉ source.takeWhile (· = Char.ofNat 0xFEFF) :=
    fun mem => absurd (List.mem_takeWhile_imp mem) (by decide)
  calc (Text.lines source).length
      = (Text.lines (source.takeWhile (· = Char.ofNat 0xFEFF) ++ source.dropWhile (· = Char.ofNat 0xFEFF))).length := by
        rw [List.takeWhile_append_dropWhile]
    _ = (linesOf source).length := Text.length_lines_append same some

end Listing

end SolutionGraph.Solution
