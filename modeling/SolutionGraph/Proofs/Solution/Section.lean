import SolutionGraph.Proofs.Solution.Block

/-!
# Sections that are not read

A section of a project or of the global block is read if its name is one of three. The lines of any other section do not
change what a file says (`read_fill`), with one exception: in the global block, each of them has to have an equals sign.

* **problems**: what a line says does not depend on the problems before it (`takeRaw_after`, `takeLines_after`);
* **bodies**: the lines of a section that is not read leave the reader where it is (`takeLines_unreadProject`,
  `takeLines_unreadGlobal`), so that files that differ in them only are read alike (`exists_read_eq_after`).
-/

namespace SolutionGraph.Solution

namespace Listing

/-! ## Earlier problems -/

/-- The listing with problems before its own. -/
def after (l : Listing) (earlier : List Problem) : Listing := { l with problems := earlier ++ l.problems }

/-- The listing without its problems. -/
def content (l : Listing) : Listing := { l with problems := [] }

section After

variable (l : Listing) (earlier : List Problem) (place : Place) (number : Nat)

theorem after_content : l.content.after l.problems = l := by
  simp [content, after]

theorem content_after : (l.after earlier).content = l.content := rfl

theorem after_inj {l : Listing} {ps qs : List Problem} : l.after ps = l.after qs ↔ ps = qs := by
  refine ⟨fun h => ?_, fun h => h ▸ rfl⟩
  have problems : ps ++ l.problems = qs ++ l.problems := congrArg Listing.problems h
  exact List.append_cancel_right problems

theorem report_after (fault : Fault) : (l.after earlier).report number fault = (l.report number fault).after earlier := by
  simp [report, after]

theorem addGlobal_after (kind : Section) (key value : Text) :
    (l.after earlier).addGlobal kind key value = (l.addGlobal kind key value).after earlier := by
  cases kind with
  | dependencies | other | solutionConfigurations => rfl
  | projectConfigurations =>
    unfold addGlobal
    cases builtProject? key with
    | some id => rfl
    | none => cases activeKey? key <;> rfl

theorem takeLine_after (line : Text) : (l.after earlier).takeLine place number line =
    ((l.takeLine place number line).1.after earlier, (l.takeLine place number line).2) := by
  cases place with
  | top =>
    simp only [takeLine, atTop]
    split
    · rfl
    · split
      · rfl
      · split
        · rfl
        · split
          · cases readEntry line with
            | ok entry => rfl
            | error fault => exact congrArg (·, _) (report_after l earlier number fault)
          · rfl
  | project entry =>
    simp only [takeLine, inProject]
    split
    · rfl
    · cases sectionName? line <;> rfl
  | projectSection entry kind =>
    simp only [takeLine, inProjectSection]
    split
    · rfl
    · split
      · split
        · rfl
        · exact congrArg (·, _) (report_after l earlier number _)
      · rfl
  | global =>
    simp only [takeLine, inGlobal]
    split
    · rfl
    · cases sectionName? line <;> rfl
  | globalSection kind =>
    simp only [takeLine, inGlobalSection]
    split
    · rfl
    · split
      · exact congrArg (·, _) (addGlobal_after l earlier kind _ _)
      · exact congrArg (·, _) (report_after l earlier number _)

/-- One line says the same after any problems. -/
theorem takeRaw_after (raw : Text) : (l.after earlier).takeRaw place number raw =
    ((l.takeRaw place number raw).1.after earlier, (l.takeRaw place number raw).2) := by
  unfold takeRaw
  split
  · rfl
  · exact takeLine_after l earlier place number _

/-- **So do all lines.** -/
theorem takeLines_after (raws : List Text) : (l.after earlier).takeLines place number raws =
    ((l.takeLines place number raws).1.after earlier, (l.takeLines place number raws).2) := by
  induction raws generalizing l place number with
  | nil => rfl
  | cons raw raws ih => rw [takeLines_cons, takeRaw_after, ih, ← takeLines_cons]

theorem finish_after : finish number (l.after earlier) place = (finish number l place).after earlier := by
  unfold finish
  split
  · rfl
  · exact report_after l earlier number .unexpectedEnd

end After

/-! ## Bodies -/

/-- The faults of the lines of a section of the global block that is not read: one for each line without an equals sign. -/
def faultsOf (number : Nat) : List Text → List Problem
  | [] => []
  | raw :: rest =>
    let line := Text.trim raw
    (if line = [] ∨ '=' ∈ line then [] else [⟨number, .malformedSectionEntry line⟩]) ++ faultsOf (number + 1) rest

section Bodies

variable {l : Listing} {number : Nat}

theorem ne_of_sectionName? {line name other : Text} (opened : sectionName? line = some name)
    (unnamed : sectionName? other = none) : line ≠ other := by
  rintro rfl
  rw [unnamed] at opened
  cases opened

theorem takeRaw_projectOpener {entry : Option Entry} {raw name : Text} (opened : sectionName? (Text.trim raw) = some name) :
    l.takeRaw (.project entry) number raw = (l, .projectSection entry (.ofName name)) := by
  have notEnd : Text.trim raw ≠ "EndProject" := ne_of_sectionName? opened (by decide)
  rw [takeRaw, isIdle_eq_false (ne_of_sectionName? opened rfl) (by rintro ⟨⟩), if_neg Bool.false_ne_true, takeLine,
    inProject, if_neg notEnd, opened]

theorem takeRaw_globalOpener {raw name : Text} (opened : sectionName? (Text.trim raw) = some name) :
    l.takeRaw .global number raw = (l, .globalSection (.ofName name)) := by
  have notEnd : Text.trim raw ≠ "EndGlobal" := ne_of_sectionName? opened (by decide)
  rw [takeRaw, isIdle_eq_false (ne_of_sectionName? opened rfl) (by rintro ⟨⟩), if_neg Bool.false_ne_true, takeLine,
    inGlobal, if_neg notEnd, opened]

theorem takeRaw_unreadProject {entry : Option Entry} {raw : Text} (inside : Text.trim raw ≠ "EndProjectSection") :
    l.takeRaw (.projectSection entry .other) number raw = (l, .projectSection entry .other) := by
  unfold takeRaw
  split
  · rfl
  · simp only [takeLine, inProjectSection, if_neg inside]

theorem takeRaw_unreadGlobal {raw : Text} (inside : Text.trim raw ≠ "EndGlobalSection") :
    l.takeRaw (.globalSection .other) number raw =
      (l.content.after (l.problems ++ faultsOf number [raw]), .globalSection .other) := by
  unfold takeRaw
  by_cases blank : Text.trim raw = []
  · simp [blank, isIdle, faultsOf, after_content]
  · have busy : isIdle (.globalSection .other) (Text.trim raw) = false := by simp [isIdle, blank]
    rw [busy, if_neg Bool.false_ne_true, takeLine, inGlobalSection, if_neg inside]
    cases cut : Text.splitOnce '=' (Text.trim raw) with
    | some parts =>
      have mem : '=' ∈ Text.trim raw := by
        obtain ⟨whole, _⟩ := Text.splitOnce_eq_some_iff.1 cut
        rw [whole]
        simp
      simp [faultsOf, mem, addGlobal, after_content]
    | none =>
      have clear := Text.splitOnce_eq_none_iff.1 cut
      simp [faultsOf, blank, clear, report, content, after]

/-- The lines of a section of a project say nothing. -/
theorem takeLines_unreadProject {entry : Option Entry} {body : List Text}
    (inside : ∀ raw ∈ body, Text.trim raw ≠ "EndProjectSection") :
    l.takeLines (.projectSection entry .other) number body = (l, .projectSection entry .other) := by
  induction body generalizing number with
  | nil => rfl
  | cons raw body ih =>
    rw [List.forall_mem_cons] at inside
    rw [takeLines_step (takeRaw_unreadProject inside.1), ih inside.2]

/-- The lines of a section of the global block say nothing, but each has to have an equals sign. -/
theorem takeLines_unreadGlobal {body : List Text} (inside : ∀ raw ∈ body, Text.trim raw ≠ "EndGlobalSection") :
    l.takeLines (.globalSection .other) number body =
      (l.content.after (l.problems ++ faultsOf number body), .globalSection .other) := by
  induction body generalizing l number with
  | nil => simp [takeLines, faultsOf, after_content]
  | cons raw body ih =>
    rw [List.forall_mem_cons] at inside
    rw [takeLines_step (takeRaw_unreadGlobal inside.1), ih inside.2]
    simp [faultsOf, content, after]

end Bodies

end Listing

/-! ## Files that differ in one section -/

/-- The names of the sections that are read. -/
def sectionNames : List Text :=
  ["ProjectDependencies".toList, "SolutionConfigurationPlatforms".toList, "ProjectConfigurationPlatforms".toList]

theorem ofName_eq_other {name : Text} (unread : Text.trim name ∉ sectionNames) : Section.ofName name = .other := by
  simp only [sectionNames, List.mem_cons, List.not_mem_nil, or_false, not_or] at unread
  obtain ⟨dependencies, ofSolution, ofProjects⟩ := unread
  simp only [Section.ofName]
  rw [if_neg dependencies, if_neg ofSolution, if_neg ofProjects]

/-- A solution file without the lines of one section. -/
structure Gap where
  /-- The lines before the section. -/
  before : List Text
  /-- The line that opens the section. -/
  opener : Text
  /-- The lines that follow those of the section. -/
  rest : List Text

namespace Gap

variable (g : Gap)

/-- The lines of the file with a given section. -/
def fill (body : List Text) : List Text := g.before ++ g.opener :: (body ++ g.rest)

/-- The block that the section is in. -/
def block : Block := Block.top.after g.before

/-- The line that ends the section. -/
def ending : Text := if g.block = .project then "EndProjectSection" else "EndGlobalSection"

/-- A section of a project or of the global block with a name that is not read. -/
structure IsUnread : Prop where
  inBlock : g.block = .project ∨ g.block = .global
  opened : ∃ name, sectionName? (Text.trim g.opener) = some name ∧ Text.trim name ∉ sectionNames

/-- Lines that do not end the section. -/
def Holds (body : List Text) : Prop := ∀ raw ∈ body, Text.trim raw ≠ g.ending

/-- The faults of the lines of the section. -/
def faults (body : List Text) : List Problem :=
  if g.block = .project then [] else Listing.faultsOf (g.before.length + 2) body

variable {g}

/-- The line that opens the section leads into it, and the lines of the section do not lead out. -/
theorem exists_takeLines_body (l : Listing) {place : Place} (number : Nat) (unread : g.IsUnread)
    (standing : place.block = g.block) :
    ∃ inside, ∀ body, g.Holds body → l.takeLines place number (g.opener :: body) =
      (l.content.after (l.problems ++ if g.block = .project then [] else Listing.faultsOf (number + 1) body), inside) := by
  obtain ⟨inBlock, name, opened, new⟩ := unread
  have other := ofName_eq_other new
  unfold Holds ending
  rw [← standing] at inBlock ⊢
  cases place with
  | top | projectSection | globalSection => simp [Place.block] at inBlock
  | project entry =>
    refine ⟨.projectSection entry .other, fun body holds => ?_⟩
    rw [Listing.takeLines_step (Listing.takeRaw_projectOpener opened), other, Listing.takeLines_unreadProject holds,
      if_pos (show (Place.project entry).block = .project from rfl), List.append_nil, Listing.after_content]
  | global =>
    refine ⟨.globalSection .other, fun body holds => ?_⟩
    rw [Listing.takeLines_step (Listing.takeRaw_globalOpener opened), other, Listing.takeLines_unreadGlobal holds]
    rfl

/-- **Files that differ in the section only** say the same, after the same problems and those of the section. -/
theorem exists_read_eq_after (unread : g.IsUnread) (size : Nat) :
    ∃ (l : Listing) (earlier : List Problem), ∀ body source, body.length = size → g.Holds body →
      Listing.linesOf source = g.fill body → Listing.read source = l.after (earlier ++ g.faults body) := by
  cases start : Listing.empty.takeLines .top 1 g.before with
  | mk read place =>
    have standing : place.block = g.block := by
      rw [show place = (Listing.empty.takeLines .top 1 g.before).2 by rw [start], Listing.block_takeLines]
      rfl
    obtain ⟨inside, run⟩ := exists_takeLines_body read (1 + g.before.length) unread standing
    -- the rest is read without the problems so far, so that it comes out the same whatever is in the section
    cases stop : read.content.takeLines inside (1 + g.before.length + (size + 1)) g.rest with
    | mk l last =>
      refine ⟨Listing.finish (g.before.length + (size + 1) + g.rest.length) l last, read.problems, ?_⟩
      intro body source length holds lines
      have some : Listing.linesOf source ≠ [] := by simp [lines, fill]
      have total : (Text.lines source).length = g.before.length + (size + 1) + g.rest.length := by
        rw [Listing.length_lines_eq some, lines]
        simp [fill, length]
        omega
      have taken : Listing.empty.takeLines .top 1 (g.fill body) = (l.after (read.problems ++ g.faults body), last) := by
        rw [fill, Listing.takeLines_append, start, ← List.cons_append, Listing.takeLines_append, run body holds,
          Listing.takeLines_after, List.length_cons, length, stop, Nat.add_comm 1, Nat.add_assoc]
        rfl
      rw [Listing.read_eq_finish, lines, taken, total, Listing.finish_after]

end Gap

/-- **A section that is not read does not change what a file says**: files that differ in the lines of such a section agree
in all but their problems. They agree in these too, unless the section is in the global block and the lines without an equals
sign differ. -/
theorem Listing.read_fill (g : Gap) {body body' : List Text} {source source' : Text} (unread : g.IsUnread)
    (holds : g.Holds body) (holds' : g.Holds body') (length : body'.length = body.length)
    (lines : linesOf source = g.fill body) (lines' : linesOf source' = g.fill body') :
    (read source').content = (read source).content ∧
      (read source' = read source ↔
        g.block = .project ∨ faultsOf (g.before.length + 2) body' = faultsOf (g.before.length + 2) body) := by
  obtain ⟨l, earlier, alike⟩ := Gap.exists_read_eq_after unread body.length
  rw [alike body source rfl holds lines, alike body' source' length holds' lines', content_after, content_after, after_inj,
    List.append_cancel_left_eq, Gap.faults, Gap.faults]
  refine ⟨rfl, ?_⟩
  by_cases project : g.block = .project
  · simp [project]
  · simp [project]

namespace Listing

namespace Sample

/-- A solution file with a section on its own id. -/
def gap : Gap where
  before := [String.toList "Global"]
  opener := "\tGlobalSection(ExtensibilityGlobals) = postSolution"
  rest := [String.toList "\tEndGlobalSection", String.toList "EndGlobal"]

/-- The text of the file with given lines in the section. -/
def source (body : List Text) : Text := (gap.fill body).flatMap fun line => line ++ "\n"

/-- A line of the usual form. -/
def usual : List Text := [String.toList "\t\tSolutionGuid = 1"]

/-- A line that looks like others of the format. -/
def unusual : List Text := [String.toList "Project(.ActiveCfg) = EndProjectSection"]

/-- A line without an equals sign. -/
def plain : List Text := [String.toList "\t\tSolutionGuid"]

theorem isUnread_gap : gap.IsUnread :=
  ⟨.inr (by decide), String.toList "ExtensibilityGlobals", by decide, by decide⟩

end Sample

/-- The lines of the section on the solution's id can be replaced. -/
theorem read_fill_gap : Sample.gap.IsUnread ∧ Sample.gap.Holds Sample.usual ∧ Sample.gap.Holds Sample.unusual ∧
    (read (Sample.source Sample.unusual)).content = (read (Sample.source Sample.usual)).content ∧
    read (Sample.source Sample.unusual) = read (Sample.source Sample.usual) := by
  have holds : Sample.gap.Holds Sample.usual := by unfold Gap.Holds; decide
  have holds' : Sample.gap.Holds Sample.unusual := by unfold Gap.Holds; decide
  have lines : linesOf (Sample.source Sample.usual) = Sample.gap.fill Sample.usual := by decide
  have lines' : linesOf (Sample.source Sample.unusual) = Sample.gap.fill Sample.unusual := by decide
  have alike := read_fill Sample.gap Sample.isUnread_gap holds holds' (by decide) lines lines'
  exact ⟨Sample.isUnread_gap, holds, holds', alike.1, alike.2.2 (.inr (by decide))⟩

/-- They cannot be replaced by lines without an equals sign: the file then has a problem. -/
theorem read_plain_ne : Sample.gap.IsUnread ∧ Sample.gap.Holds Sample.usual ∧ Sample.gap.Holds Sample.plain ∧
    Sample.plain.length = Sample.usual.length ∧
    linesOf (Sample.source Sample.usual) = Sample.gap.fill Sample.usual ∧
    linesOf (Sample.source Sample.plain) = Sample.gap.fill Sample.plain ∧
    (read (Sample.source Sample.usual)).problems = [] ∧
    (read (Sample.source Sample.plain)).problems = [⟨3, .malformedSectionEntry "SolutionGuid"⟩] ∧
    read (Sample.source Sample.plain) ≠ read (Sample.source Sample.usual) := by
  have none : (read (Sample.source Sample.usual)).problems = [] := by decide
  have one : (read (Sample.source Sample.plain)).problems = [⟨3, .malformedSectionEntry "SolutionGuid"⟩] := by decide
  refine ⟨Sample.isUnread_gap, by unfold Gap.Holds; decide, by unfold Gap.Holds; decide, by decide, by decide, by decide, none,
    one, fun same => ?_⟩
  rw [same, none] at one
  cases one

end Listing

end SolutionGraph.Solution
