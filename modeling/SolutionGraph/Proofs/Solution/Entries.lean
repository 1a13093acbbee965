import Mathlib.Data.List.Forall2
import Mathlib.Data.List.Nodup
import Mathlib.Data.List.Perm.Subperm
import SolutionGraph.Proofs.Solution.Block

/-!
# What becomes of the projects that a file lists

A line that starts like that of a project, outside sections, should give an entry or a problem (`AccountsFor`). The reader
looks for projects outside blocks only, so it loses those that stand in a block which ends after them, and no others
(`accountsFor_iff`): a project after one that is not ended, or a project between the sections of the global block.

* **one line** (`takeRaw_cases`): it ends a project, opens one that can be read or one that cannot, or does neither;
* **all lines**: the entries are those of the lines that open a project and whose block ends (`map_bare_takeLines`), and the
  problems are on lines of sections and on lines of projects that cannot be read (`problems_takeLines`).
-/

namespace SolutionGraph.Solution

/-- Whether a block is still open after all lines, and was never left before. -/
def Block.staysOpen (b : Block) : List Text → Bool
  | [] => b != .top
  | raw :: rest => b != .top && (b.next (Text.trim raw)).staysOpen rest

theorem Block.staysOpen_top (raws : List Text) : Block.top.staysOpen raws = false := by
  cases raws <;> rfl

theorem Block.staysOpen_cons {b : Block} (inside : b ≠ .top) (raw : Text) (rest : List Text) :
    b.staysOpen (raw :: rest) = (b.next (Text.trim raw)).staysOpen rest := by
  rw [Block.staysOpen, bne_iff_ne.2 inside, Bool.true_and]

/-- The entry as its line gives it. -/
def Entry.bare (e : Entry) : Entry := { e with dependencies := [] }

/-- The entry of the project that a reader is in. -/
def Place.pending : Place → Option Entry
  | .project entry | .projectSection entry _ => entry
  | .top | .global | .globalSection _ => none

/-! ## Lines where they stand -/

/-- A line of a file, with what it stands in. -/
structure Standing where
  /-- The number of the line. -/
  number : Nat
  /-- The block that it stands in. -/
  block : Block
  /-- The line without blanks around it. -/
  text : Text
  /-- The lines after it. -/
  rest : List Text
  deriving DecidableEq

namespace Standing

/-- Whether a line starts like that of a project, outside sections. -/
def isEntryLine (x : Standing) : Bool :=
  x.block != .projectSection && x.block != .globalSection && "Project(".toList.isPrefixOf x.text

/-- Whether the block after a line stays open to the end of the file. -/
def isLeftOpen (x : Standing) : Bool := (x.block.next x.text).staysOpen x.rest

/-- The entry of a line that opens a project whose block ends. -/
def listed? (x : Standing) : Option Entry :=
  if x.block = .top ∧ x.isEntryLine ∧ x.isLeftOpen = false then (readEntry x.text).toOption else none

/-- A line gives an entry, up to the dependencies that later lines add. -/
def Lists (x : Standing) (e : Entry) : Prop := readEntry x.text = .ok e.bare

end Standing

/-- A problem tells of a line: it is on the line, or it is that the file ends in the block that the line stands in or
opens. -/
def Problem.Covers (p : Problem) (x : Standing) : Prop :=
  if p.fault = .unexpectedEnd then x.isLeftOpen = true else p.line = x.number

/-- The lines numbered from `number` on, where they stand. -/
def standings (b : Block) (number : Nat) : List Text → List Standing
  | [] => []
  | raw :: rest => ⟨number, b, Text.trim raw, rest⟩ :: standings (b.next (Text.trim raw)) (number + 1) rest

section Standings

variable {b : Block} {number : Nat} {raws : List Text} {x : Standing}

theorem map_number_standings : (standings b number raws).map Standing.number = List.range' number raws.length := by
  induction raws generalizing b number with
  | nil => rfl
  | cons raw raws ih => rw [standings, List.map_cons, ih, List.length_cons, List.range'_succ]

theorem nodup_number_standings : ((standings b number raws).map Standing.number).Nodup := by
  rw [map_number_standings]
  exact List.nodup_range'

theorem after_eq_of_mem (mem : x ∈ standings b number raws) : (x.block.next x.text).after x.rest = b.after raws := by
  induction raws generalizing b number with
  | nil => cases mem
  | cons raw raws ih =>
    obtain rfl | mem := List.mem_cons.1 mem
    · rfl
    · exact ih mem

theorem after_ne_top (stays : b.staysOpen raws) : b.after raws ≠ .top := by
  induction raws generalizing b with
  | nil => simpa [Block.staysOpen, Block.after] using stays
  | cons raw raws ih =>
    rw [Block.staysOpen, Bool.and_eq_true] at stays
    exact ih stays.2

end Standings

namespace Listing

/-! ## One line -/

section Step

variable (l : Listing) (place : Place) (number : Nat) (raw : Text)

theorem bare_of_readEntry {line : Text} {e : Entry} (h : readEntry line = .ok e) : e.bare = e := by
  unfold readEntry at h
  split at h
  · cases h
  · split at h
    · cases h
      rfl
    · cases h

/-- What a line does to the entries if it neither ends nor opens a project. -/
structure Passes (l' : Listing) (place' : Place) : Prop where
  entries : l'.entries = l.entries
  pending : place'.pending.map Entry.bare = place.pending.map Entry.bare
  problems : l'.problems = l.problems ∨ ∃ fault, l'.problems = l.problems ++ [⟨number, fault⟩] ∧
    (place.block = .projectSection ∨ place.block = .globalSection)

theorem passes_self {place' : Place} (pending : place'.pending = place.pending) : l.Passes place number l place' :=
  ⟨rfl, by rw [pending], .inl rfl⟩

theorem passes_report {place' : Place} (fault : Fault) (pending : place'.pending = place.pending)
    (inSection : place.block = .projectSection ∨ place.block = .globalSection) :
    l.Passes place number (l.report number fault) place' :=
  ⟨rfl, by rw [pending], .inr ⟨fault, rfl, inSection⟩⟩

theorem passes_atTop {line : Text} (other : "Project(".toList.isPrefixOf line = false) :
    l.Passes .top number (l.atTop number line).1 (l.atTop number line).2 := by
  unfold atTop
  split
  · exact ⟨rfl, rfl, .inl rfl⟩
  · split
    · exact ⟨rfl, rfl, .inl rfl⟩
    · rw [other]
      split <;> exact ⟨rfl, rfl, .inl rfl⟩

theorem passes_inProject {entry : Option Entry} {line : Text} (inside : line ≠ "EndProject") :
    l.Passes (.project entry) number (l.inProject entry line).1 (l.inProject entry line).2 := by
  unfold inProject
  rw [if_neg inside]
  cases sectionName? line <;> exact passes_self l _ number rfl

theorem passes_inProjectSection {entry : Option Entry} {kind : Section} {line : Text} :
    l.Passes (.projectSection entry kind) number (l.inProjectSection number entry kind line).1
      (l.inProjectSection number entry kind line).2 := by
  unfold inProjectSection
  split
  · exact passes_self l _ number rfl
  · split
    · simp only
      split
      · exact ⟨rfl, rfl, .inl rfl⟩
      · exact passes_report l _ number _ rfl (.inl rfl)
    · exact passes_self l _ number rfl

theorem passes_inGlobal {line : Text} : l.Passes .global number (l.inGlobal line).1 (l.inGlobal line).2 := by
  unfold inGlobal
  split
  · exact passes_self l _ number rfl
  · cases sectionName? line <;> exact passes_self l _ number rfl

theorem entries_addGlobal (kind : Section) (key value : Text) :
    (l.addGlobal kind key value).entries = l.entries ∧ (l.addGlobal kind key value).problems = l.problems := by
  unfold addGlobal
  split
  · exact ⟨rfl, rfl⟩
  · split <;> exact ⟨rfl, rfl⟩
  · exact ⟨rfl, rfl⟩

theorem passes_inGlobalSection {kind : Section} {line : Text} :
    l.Passes (.globalSection kind) number (l.inGlobalSection number kind line).1
      (l.inGlobalSection number kind line).2 := by
  unfold inGlobalSection
  split
  · exact passes_self l _ number rfl
  · split
    · obtain ⟨entries, problems⟩ := entries_addGlobal l kind (Text.trim _) _
      exact ⟨entries, rfl, .inl problems⟩
    · exact passes_report l _ number _ rfl (.inr rfl)

/-- **What a line can do.** -/
theorem takeRaw_cases :
    (∃ entry, place = .project entry ∧ Text.trim raw = "EndProject" ∧
      l.takeRaw place number raw = ({ l with entries := l.entries ++ entry.toList }, .top)) ∨
    (place = .top ∧ "Project(".toList.isPrefixOf (Text.trim raw) ∧
      ((∃ e, readEntry (Text.trim raw) = .ok e ∧ l.takeRaw place number raw = (l, .project (some e))) ∨
      ∃ fault, readEntry (Text.trim raw) = .error fault ∧
        l.takeRaw place number raw = (l.report number fault, .project none))) ∨
    (¬ (place = .top ∧ "Project(".toList.isPrefixOf (Text.trim raw)) ∧
      l.Passes place number (l.takeRaw place number raw).1 (l.takeRaw place number raw).2) := by
  unfold takeRaw
  by_cases idle : isIdle place (Text.trim raw)
  · rw [if_pos idle]
    refine .inr (.inr ⟨?_, passes_self l place number rfl⟩)
    -- a line that the reader skips does not open a block
    rintro ⟨rfl, start⟩
    have stays := next_of_isIdle idle
    rw [Place.block, next_top_eq_project start] at stays
    cases stays
  rw [if_neg idle]
  cases place with
  | top =>
    cases start : "Project(".toList.isPrefixOf (Text.trim raw) with
    | false => exact .inr (.inr ⟨by simp, passes_atTop l number start⟩)
    | true =>
      refine .inr (.inl ⟨rfl, rfl, ?_⟩)
      rw [takeLine, atTop_of_isPrefixOf l number start]
      cases readEntry (Text.trim raw) with
      | ok e => exact .inl ⟨e, rfl, rfl⟩
      | error fault => exact .inr ⟨fault, rfl, rfl⟩
  | project entry =>
    by_cases stop : Text.trim raw = "EndProject"
    · refine .inl ⟨entry, rfl, stop, ?_⟩
      rw [takeLine, inProject, if_pos stop]
    · exact .inr (.inr ⟨by simp, passes_inProject l number stop⟩)
  | projectSection entry kind => exact .inr (.inr ⟨by simp, passes_inProjectSection l number⟩)
  | global => exact .inr (.inr ⟨by simp, passes_inGlobal l number⟩)
  | globalSection kind => exact .inr (.inr ⟨by simp, passes_inGlobalSection l number⟩)

end Step

/-! ## All lines -/

/-- The entry of the project that a reader is in, if the project ends. -/
def owed (place : Place) (raws : List Text) : List Entry :=
  if place.block.staysOpen raws then [] else (place.pending.map Entry.bare).toList

theorem owed_nil (place : Place) : owed place [] = [] := by
  cases place <;> rfl

theorem owed_of_pending_eq_none (place : Place) (none : place.pending = none) (raws : List Text) : owed place raws = [] := by
  rw [owed, none]
  split <;> rfl

/-- The entry that a line gives outside blocks is the one that the reader is owed after it. -/
theorem toList_listed?_top {number : Nat} {raw : Text} {rest : List Text}
    (start : "Project(".toList.isPrefixOf (Text.trim raw)) :
    (Standing.listed? ⟨number, .top, Text.trim raw, rest⟩).toList =
      owed (.project (readEntry (Text.trim raw)).toOption) rest := by
  have next : Standing.isLeftOpen ⟨number, .top, Text.trim raw, rest⟩ = Block.project.staysOpen rest := by
    rw [Standing.isLeftOpen, next_top_eq_project start]
  have line : Standing.isEntryLine ⟨number, .top, Text.trim raw, rest⟩ = true := by
    rw [Standing.isEntryLine, start]
    rfl
  unfold Standing.listed? owed
  rw [next, line]
  show _ = if Block.project.staysOpen rest then [] else ((readEntry (Text.trim raw)).toOption.map Entry.bare).toList
  cases entry : readEntry (Text.trim raw) with
  | ok e => cases Block.project.staysOpen rest <;> simp [Except.toOption, bare_of_readEntry entry]
  | error fault => cases Block.project.staysOpen rest <;> simp [Except.toOption]

section Run

variable (l : Listing) (place : Place) (number : Nat)

/-- A line that neither ends nor opens a project changes nothing in what the reader is owed. -/
theorem owed_of_passes {raw : Text} {rest : List Text}
    (passes : l.Passes place number (l.takeRaw place number raw).1 (l.takeRaw place number raw).2) :
    owed (l.takeRaw place number raw).2 rest = owed place (raw :: rest) := by
  by_cases inside : place.block = .top
  · have before : place.pending = none := by cases place <;> first | rfl | cases inside
    have after : (l.takeRaw place number raw).2.pending = none := by simpa [before] using passes.pending
    rw [owed_of_pending_eq_none _ before, owed_of_pending_eq_none _ after]
  · rw [owed, owed, Block.staysOpen_cons inside, block_takeRaw, passes.pending]

/-- One line keeps the account: what it adds to the entries, and to those owed, is the entry that it gives. -/
theorem map_bare_takeRaw (raw : Text) (rest : List Text) :
    (l.takeRaw place number raw).1.entries.map Entry.bare ++ owed (l.takeRaw place number raw).2 rest =
      l.entries.map Entry.bare ++
        (owed place (raw :: rest) ++ (Standing.listed? ⟨number, place.block, Text.trim raw, rest⟩).toList) := by
  obtain ⟨entry, rfl, stop, step⟩ | ⟨rfl, start, step⟩ | ⟨other, passes⟩ := takeRaw_cases l place number raw
  · have ended : owed (.project entry) (raw :: rest) = (entry.map Entry.bare).toList := by
      have next : Block.project.next (Text.trim raw) = .top := if_pos stop
      rw [owed, Place.block, Block.staysOpen_cons (by decide), next, Block.staysOpen_top, if_neg Bool.false_ne_true]
      rfl
    have none : Standing.listed? ⟨number, .project, Text.trim raw, rest⟩ = none := rfl
    rw [step, owed_of_pending_eq_none _ rfl, ended, Place.block, none]
    cases entry <;> simp
  · rw [Place.block, toList_listed?_top start, owed_of_pending_eq_none .top rfl, List.nil_append]
    obtain ⟨e, entry, step⟩ | ⟨fault, entry, step⟩ := step
    · rw [step, entry]
      rfl
    · rw [step, entry]
      rfl
  · have none : Standing.listed? ⟨number, place.block, Text.trim raw, rest⟩ = none := by
      refine if_neg fun ⟨top, line, _⟩ => other ⟨?_, ?_⟩
      · cases place <;> first | rfl | cases top
      · rw [Standing.isEntryLine, Bool.and_eq_true] at line
        exact line.2
    rw [passes.entries, owed_of_passes l place number passes, none, Option.toList_none, List.append_nil]

/-- **The entries** are those that the reader was owed, and those of the lines that open a project whose block ends. -/
theorem map_bare_takeLines (raws : List Text) : (l.takeLines place number raws).1.entries.map Entry.bare =
    l.entries.map Entry.bare ++ (owed place raws ++ (standings place.block number raws).filterMap Standing.listed?) := by
  induction raws generalizing l place number with
  | nil => simp [takeLines, standings, owed_nil]
  | cons raw raws ih =>
    have step := map_bare_takeRaw l place number raw raws
    rw [takeLines_cons, ih, ← List.append_assoc, step, standings, block_takeRaw]
    cases entry : Standing.listed? ⟨number, place.block, Text.trim raw, raws⟩ <;> simp [entry]

/-- A line has a problem that is not about the end of the file: it stands in a section, or it opens a project that cannot
be read. -/
def Faulty (x : Standing) (p : Problem) : Prop :=
  p.line = x.number ∧ (x.block = .projectSection ∨ x.block = .globalSection ∨
    (x.block = .top ∧ "Project(".toList.isPrefixOf x.text ∧ readEntry x.text = .error p.fault))

/-- One line gives at most the problem that it has, and it does give the problem of a project that cannot be read. -/
theorem problems_takeRaw (raw : Text) (rest : List Text) :
    (∀ p ∈ (l.takeRaw place number raw).1.problems, p ∈ l.problems ∨ Faulty ⟨number, place.block, Text.trim raw, rest⟩ p) ∧
      (∀ p ∈ l.problems, p ∈ (l.takeRaw place number raw).1.problems) ∧
      ∀ fault, place.block = .top → "Project(".toList.isPrefixOf (Text.trim raw) →
        readEntry (Text.trim raw) = .error fault → ⟨number, fault⟩ ∈ (l.takeRaw place number raw).1.problems := by
  obtain ⟨entry, rfl, stop, step⟩ | ⟨rfl, start, step⟩ | ⟨other, passes⟩ := takeRaw_cases l place number raw
  · rw [step]
    exact ⟨fun p mem => .inl mem, fun p mem => mem, fun _ top => by cases top⟩
  · obtain ⟨e, entry, step⟩ | ⟨fault, entry, step⟩ := step
    · rw [step, entry]
      exact ⟨fun p mem => .inl mem, fun p mem => mem, fun _ _ _ error => by cases error⟩
    · rw [step, entry, report]
      refine ⟨fun p mem => ?_, fun p mem => List.mem_append_left _ mem, ?_⟩
      · obtain mem | mem := List.mem_append.1 mem
        · exact .inl mem
        · obtain rfl := List.mem_singleton.1 mem
          exact .inr ⟨rfl, .inr (.inr ⟨rfl, start, entry⟩)⟩
      · rintro _ - - ⟨⟩
        simp
  · refine ⟨fun p mem => ?_, fun p mem => ?_, fun _ top start => ?_⟩
    · obtain same | ⟨fault, more, inSection⟩ := passes.problems
      · exact .inl (same ▸ mem)
      · rw [more] at mem
        obtain mem | mem := List.mem_append.1 mem
        · exact .inl mem
        · obtain rfl := List.mem_singleton.1 mem
          exact .inr ⟨rfl, inSection.elim .inl fun h => .inr (.inl h)⟩
    · obtain same | ⟨fault, more, _⟩ := passes.problems
      · exact same ▸ mem
      · exact more ▸ List.mem_append_left _ mem
    · refine absurd ⟨?_, start⟩ other
      cases place <;> first | rfl | cases top

/-- **The problems** are those from before and those of the lines, and the problem of each project that cannot be read is
among them. -/
theorem problems_takeLines (raws : List Text) :
    (∀ p ∈ (l.takeLines place number raws).1.problems,
      p ∈ l.problems ∨ ∃ x ∈ standings place.block number raws, Faulty x p) ∧
    (∀ p ∈ l.problems, p ∈ (l.takeLines place number raws).1.problems) ∧
    ∀ x ∈ standings place.block number raws, ∀ fault, x.block = .top → "Project(".toList.isPrefixOf x.text →
      readEntry x.text = .error fault → ⟨x.number, fault⟩ ∈ (l.takeLines place number raws).1.problems := by
  induction raws generalizing l place number with
  | nil => exact ⟨fun p mem => .inl mem, fun p mem => mem, fun x mem => by cases mem⟩
  | cons raw raws ih =>
    obtain ⟨sound, kept, given⟩ := ih (l.takeRaw place number raw).1 (l.takeRaw place number raw).2 (number + 1)
    obtain ⟨stepSound, stepKept, stepGiven⟩ := problems_takeRaw l place number raw raws
    rw [block_takeRaw] at sound given
    rw [takeLines_cons, standings]
    refine ⟨fun p mem => ?_, fun p mem => kept p (stepKept p mem), ?_⟩
    · obtain mem | ⟨x, mem, faulty⟩ := sound p mem
      · exact (stepSound p mem).imp_right fun faulty => ⟨_, List.mem_cons_self, faulty⟩
      · exact .inr ⟨x, List.mem_cons_of_mem _ mem, faulty⟩
    · rw [List.forall_mem_cons]
      exact ⟨fun fault top start error => kept _ (stepGiven fault top start error), given⟩

end Run

/-! ## The whole file -/

/-- The lines of a file, outside sections, that start like those of projects. -/
def entryLines (source : Text) : List Standing :=
  (standings .top 1 (linesOf source)).filter Standing.isEntryLine

/-- Every project that a file lists is accounted for: the entries are those of some of its lines, in order, and each other
line has a problem. -/
def AccountsFor (source : Text) : Prop :=
  ∃ kept, kept.Sublist (entryLines source) ∧ List.Forall₂ Standing.Lists kept (read source).entries ∧
    ∀ x ∈ entryLines source, x ∈ kept ∨ ∃ p ∈ (read source).problems, p.Covers x

section Whole

variable {source : Text} {x : Standing}

theorem entries_finish (total : Nat) (l : Listing) (place : Place) : (finish total l place).entries = l.entries := by
  unfold finish
  split <;> rfl

theorem map_bare_read (source : Text) :
    (read source).entries.map Entry.bare = (standings .top 1 (linesOf source)).filterMap Standing.listed? := by
  rw [read_eq_finish, entries_finish, map_bare_takeLines, owed_of_pending_eq_none .top rfl]
  rfl

/-! ### Problems of lines -/

theorem faulty_of_mem_problems {p : Problem} (mem : p ∈ (read source).problems) :
    p.fault = .unexpectedEnd ∨ ∃ x ∈ standings .top 1 (linesOf source), Faulty x p := by
  have sound := (problems_takeLines empty .top 1 (linesOf source)).1
  rw [read_eq_finish, finish] at mem
  split at mem
  · exact .inr ((sound p mem).resolve_left (List.not_mem_nil))
  · obtain mem | mem := List.mem_append.1 mem
    · exact .inr ((sound p mem).resolve_left (List.not_mem_nil))
    · obtain rfl := List.mem_singleton.1 mem
      exact .inl rfl

theorem mem_problems_read {p : Problem} (mem : p ∈ (empty.takeLines .top 1 (linesOf source)).1.problems) :
    p ∈ (read source).problems := by
  rw [read_eq_finish, finish]
  split
  · exact mem
  · exact List.mem_append_left _ mem

/-- A line whose block stays open is told of at the end of the file. -/
theorem covered_of_isLeftOpen (mem : x ∈ standings .top 1 (linesOf source)) (left : x.isLeftOpen) :
    ∃ p ∈ (read source).problems, p.Covers x := by
  have last : (empty.takeLines .top 1 (linesOf source)).2.block ≠ .top := by
    rw [block_takeLines, Place.block, ← after_eq_of_mem mem]
    exact after_ne_top left
  refine ⟨⟨(Text.lines source).length, .unexpectedEnd⟩, ?_, ?_⟩
  · rw [read_eq_finish, finish, if_neg last, report]
    simp
  · exact left

/-- A project that cannot be read is told of on its line. -/
theorem covered_of_error (mem : x ∈ standings .top 1 (linesOf source)) (line : x.isEntryLine) (top : x.block = .top)
    {fault : Fault} (error : readEntry x.text = .error fault) : ∃ p ∈ (read source).problems, p.Covers x := by
  have start : "Project(".toList.isPrefixOf x.text := by
    rw [Standing.isEntryLine, Bool.and_eq_true] at line
    exact line.2
  have given := (problems_takeLines empty .top 1 (linesOf source)).2.2 x mem fault top start error
  refine ⟨⟨x.number, fault⟩, mem_problems_read given, ?_⟩
  have early : fault ≠ .unexpectedEnd := by
    rintro rfl
    unfold readEntry at error
    split at error
    · cases error
    · split at error <;> cases error
  rw [Problem.Covers, if_neg early]

/-- No other line is told of. -/
theorem not_covered (mem : x ∈ standings .top 1 (linesOf source)) (line : x.isEntryLine) (ended : x.isLeftOpen = false)
    (readable : x.block = .top → ∃ e, readEntry x.text = .ok e) : ¬ ∃ p ∈ (read source).problems, p.Covers x := by
  rintro ⟨p, given, covers⟩
  unfold Problem.Covers at covers
  split at covers
  · rw [ended] at covers
    cases covers
  · rename_i early
    obtain ⟨y, memY, number, faulty⟩ := (faulty_of_mem_problems given).resolve_left early
    -- a problem on the number of the line is one of the line itself
    obtain rfl := List.inj_on_of_nodup_map nodup_number_standings memY mem (number.symm.trans covers)
    simp only [Standing.isEntryLine, Bool.and_eq_true, bne_iff_ne, ne_eq] at line
    obtain inSection | inSection | ⟨top, _, error⟩ := faulty
    · exact line.1.1 inSection
    · exact line.1.2 inSection
    · obtain ⟨e, ok⟩ := readable top
      rw [ok] at error
      cases error

/-! ### Entries of lines -/

theorem listed?_eq_some_iff {e : Entry} : x.listed? = some e ↔
    x.block = .top ∧ x.isEntryLine ∧ x.isLeftOpen = false ∧ readEntry x.text = .ok e := by
  unfold Standing.listed?
  split
  · rename_i listed
    cases readEntry x.text <;> simp [Except.toOption, listed]
  · rename_i unlisted
    simp only [reduceCtorEq, false_iff]
    exact fun ⟨top, line, ended, _⟩ => unlisted ⟨top, line, ended⟩

theorem forall₂_of_filterMap_eq {α β γ : Type} {f : α → Option γ} {g : β → γ} {xs : List α} {ys : List β}
    (h : xs.filterMap f = ys.map g) :
    List.Forall₂ (fun x y => f x = some (g y)) (xs.filter fun x => (f x).isSome) ys := by
  induction xs generalizing ys with
  | nil =>
    obtain rfl : ys = [] := List.map_eq_nil_iff.1 h.symm
    exact .nil
  | cons x xs ih =>
    cases image : f x with
    | none =>
      rw [List.filterMap_cons_none image] at h
      rw [List.filter_cons_of_neg (by simp [image])]
      exact ih h
    | some z =>
      rw [List.filterMap_cons_some image] at h
      rw [List.filter_cons_of_pos (by simp [image])]
      cases ys with
      | nil => cases h
      | cons y ys =>
        rw [List.map_cons, List.cons.injEq] at h
        exact .cons (image.trans (congrArg some h.1)) (ih h.2)

/-- The lines of a file that give its entries. -/
def listedLines (source : Text) : List Standing := (entryLines source).filter fun x => x.listed?.isSome

theorem mem_entryLines : x ∈ entryLines source ↔ x ∈ standings .top 1 (linesOf source) ∧ x.isEntryLine :=
  List.mem_filter

theorem mem_listedLines : x ∈ listedLines source ↔
    x ∈ entryLines source ∧ x.block = .top ∧ x.isLeftOpen = false ∧ ∃ e, readEntry x.text = .ok e := by
  rw [listedLines, List.mem_filter, Option.isSome_iff_exists]
  simp only [listed?_eq_some_iff]
  exact ⟨fun ⟨mem, e, top, _, ended, ok⟩ => ⟨mem, top, ended, e, ok⟩,
    fun ⟨mem, top, ended, e, ok⟩ => ⟨mem, e, top, (mem_entryLines.1 mem).2, ended, ok⟩⟩

/-- **The entries of a file** are those of these lines, in order. -/
theorem forall₂_listedLines (source : Text) : List.Forall₂ Standing.Lists (listedLines source) (read source).entries := by
  have listed : listedLines source = (standings .top 1 (linesOf source)).filter fun x => x.listed?.isSome := by
    rw [listedLines, entryLines, List.filter_filter]
    refine List.filter_congr fun x _ => ?_
    cases entry : x.listed? with
    | none => rfl
    | some e => exact (listed?_eq_some_iff.1 entry).2.1
  rw [listed]
  refine (forall₂_of_filterMap_eq (map_bare_read source).symm).imp fun x e entry => ?_
  exact (listed?_eq_some_iff.1 entry).2.2.2

theorem nodup_entryLines : (entryLines source).Nodup := nodup_number_standings.of_map.filter _

/-- A line of a project outside blocks gives an entry or has a problem. -/
theorem listed_or_covered (mem : x ∈ entryLines source) (top : x.block = .top) :
    x ∈ listedLines source ∨ ∃ p ∈ (read source).problems, p.Covers x := by
  obtain ⟨standing, line⟩ := mem_entryLines.1 mem
  cases left : x.isLeftOpen with
  | true => exact .inr (covered_of_isLeftOpen standing left)
  | false =>
    cases entry : readEntry x.text with
    | ok e => exact .inl (mem_listedLines.2 ⟨mem, top, left, e, entry⟩)
    | error fault => exact .inr (covered_of_error standing line top entry)

/-- The lines that give entries, and one that stands in a block which ends after it, would all have to be kept: there are
fewer entries than that. -/
theorem isLeftOpen_of_accountsFor (accounts : AccountsFor source) (mem : x ∈ entryLines source) (inside : x.block ≠ .top) :
    x.isLeftOpen := by
  by_contra ended
  rw [Bool.not_eq_true] at ended
  obtain ⟨kept, _, lists, all⟩ := accounts
  have own : x ∈ kept := by
    obtain ⟨standing, line⟩ := mem_entryLines.1 mem
    exact (all x mem).resolve_right (not_covered standing line ended fun top => absurd top inside)
  have others : listedLines source ⊆ kept := by
    intro y memY
    obtain ⟨memY, _, ended, e, ok⟩ := mem_listedLines.1 memY
    obtain ⟨standing, line⟩ := mem_entryLines.1 memY
    exact (all y memY).resolve_right (not_covered standing line ended fun _ => ⟨e, ok⟩)
  have new : x ∉ listedLines source := fun listed => inside (mem_listedLines.1 listed).2.1
  have nodup : (x :: listedLines source).Nodup := List.nodup_cons.2 ⟨new, nodup_entryLines.filter _⟩
  have fewer := (nodup.subperm (List.cons_subset.2 ⟨own, others⟩)).length_le
  rw [List.length_cons, (forall₂_listedLines source).length_eq, lists.length_eq] at fewer
  omega

theorem forall₂_of_problems_eq_nil (none : (read source).problems = []) :
    List.Forall₂ Standing.Lists ((entryLines source).filter (·.block = .top)) (read source).entries := by
  have all : (entryLines source).filter (·.block = .top) = listedLines source := by
    refine List.filter_congr fun x mem => ?_
    rw [Bool.eq_iff_iff, decide_eq_true_iff]
    constructor
    · intro top
      have listed := (listed_or_covered mem top).resolve_right (by simp [none])
      exact (List.mem_filter.1 listed).2
    · intro listed
      exact (mem_listedLines.1 (List.mem_filter.2 ⟨mem, listed⟩)).2.1
  rw [all]
  exact forall₂_listedLines source

/-- **A file accounts for its projects** exactly if no line of a project stands in a block which ends after it. If the file
has no problem, its entries are those of the lines of projects outside blocks; and if it accounts for its projects too, they
are those of all lines of projects. -/
theorem accountsFor_iff (source : Text) :
    (AccountsFor source ↔ ∀ x ∈ entryLines source, x.block ≠ .top → x.isLeftOpen) ∧
    ((read source).problems = [] →
      List.Forall₂ Standing.Lists ((entryLines source).filter (·.block = .top)) (read source).entries) ∧
    (AccountsFor source → (read source).problems = [] →
      List.Forall₂ Standing.Lists (entryLines source) (read source).entries) := by
  refine ⟨⟨fun accounts x mem inside => isLeftOpen_of_accountsFor accounts mem inside, fun left => ?_⟩,
    forall₂_of_problems_eq_nil, fun accounts none => ?_⟩
  · refine ⟨listedLines source, List.filter_sublist, forall₂_listedLines source, fun x mem => ?_⟩
    by_cases top : x.block = .top
    · exact listed_or_covered mem top
    · exact .inr (covered_of_isLeftOpen (mem_entryLines.1 mem).1 (left x mem top))
  · have top : ∀ x ∈ entryLines source, x.block = .top := by
      intro x mem
      by_contra inside
      have left := isLeftOpen_of_accountsFor accounts mem inside
      obtain ⟨p, given, _⟩ := covered_of_isLeftOpen (mem_entryLines.1 mem).1 left
      rw [none] at given
      cases given
    have all : (entryLines source).filter (·.block = .top) = entryLines source :=
      List.filter_eq_self.2 fun x mem => decide_eq_true (top x mem)
    have lists := forall₂_of_problems_eq_nil none
    rwa [all] at lists

end Whole

namespace Sample

/-- The line of a project whose name and id have one digit only. -/
def lineOf (digit : Char) : Text :=
  "Project(\"\") = \"" ++ [digit] ++ "\", \"\", \"" ++ List.replicate 32 digit ++ "\""

/-- The text of some lines. -/
def fileOf (lines : List Text) : Text := lines.flatMap fun line => line ++ "\n"

/-- A file of two projects. -/
def complete : Text := fileOf [lineOf '1', String.toList "EndProject", lineOf '2', String.toList "EndProject"]

/-- The same file without the end of the first project. -/
def unended : Text := fileOf [lineOf '1', lineOf '2', String.toList "EndProject"]

end Sample

/-- The first sample accounts for both of its projects. -/
theorem accountsFor_complete : AccountsFor Sample.complete ∧ (read Sample.complete).entries.length = 2 ∧
    List.Forall₂ Standing.Lists (entryLines Sample.complete) (read Sample.complete).entries := by
  have accounts : AccountsFor Sample.complete := (accountsFor_iff Sample.complete).1.2 (by decide +kernel)
  exact ⟨accounts, by decide +kernel, (accountsFor_iff Sample.complete).2.2 accounts (by decide +kernel)⟩

/-- The second one does not: it has no problem and lists two projects, but one entry only. -/
theorem not_accountsFor_unended : ¬ AccountsFor Sample.unended ∧ (read Sample.unended).problems = [] ∧
    (entryLines Sample.unended).length = 2 ∧ (read Sample.unended).entries.length = 1 := by
  refine ⟨fun accounts => ?_, by decide +kernel, by decide +kernel, by decide +kernel⟩
  have second : ⟨2, .project, Sample.lineOf '2', [String.toList "EndProject"]⟩ ∈ entryLines Sample.unended := by
    decide +kernel
  exact absurd (isLeftOpen_of_accountsFor accounts second (by decide)) (by decide +kernel)

end Listing

end SolutionGraph.Solution
