import SolutionGraph.Proofs.OrderedMap
import SolutionGraph.Proofs.ProjectId
import SolutionGraph.Proofs.Solution.Block
import SolutionGraph.Solution.Writer

/-!
# Written solution files are read back

`Layout.print` writes a solution file, and `Listing.read` gives back what was written (`read_print`), whatever the texts of the
entries and the names of the configurations look like: they may have dots, commas, parentheses, hashes or words of the
format in them.

* **lines**: each written line is taken in for what it says (`takeRaw_header`, `takeRaw_entry`, `takeRaw_dependency`,
  `takeRaw_configuration`, `takeRaw_mapping`);
* **runs**: lines of one kind are taken in one after the other (`takeLines_map`), and so are the blocks of the projects
  (`takeLines_entries`).
-/

namespace SolutionGraph

/-- A name that can be written: without blanks around it, and without a character that would cut it. -/
structure ConfigurationName.IsWritable (name : ConfigurationName) : Prop where
  trimmed : Text.trim name.text = name.text
  uncut : '=' ∉ name.text
  oneLine : '\n' ∉ name.text

instance (name : ConfigurationName) : Decidable name.IsWritable :=
  decidable_of_iff (Text.trim name.text = name.text ∧ '=' ∉ name.text ∧ '\n' ∉ name.text)
    ⟨fun ⟨trimmed, uncut, oneLine⟩ => ⟨trimmed, uncut, oneLine⟩, fun h => ⟨h.trimmed, h.uncut, h.oneLine⟩⟩

theorem ConfigurationName.IsWritable.ofText {name : ConfigurationName} (h : name.IsWritable) : .ofText name.text = name := by
  rw [ConfigurationName.ofText, h.trimmed]

namespace Solution

/-! ## What can be written -/

/-- A format version: digits, a point and digits. -/
def IsVersion (t : Text) : Prop :=
  ∃ whole part, t = whole ++ '.' :: part ∧ whole ≠ [] ∧ part ≠ [] ∧ (whole ++ part).all Text.isDecimalDigit

/-- An entry that can be written: its texts fit between double quotes on one line, and it has no dependency twice. -/
structure Entry.IsWritable (e : Entry) : Prop where
  unquoted : ∀ t ∈ [e.kind, e.name, e.path], '"' ∉ t
  oneLine : ∀ t ∈ [e.kind, e.name, e.path], '\n' ∉ t
  dependencies : e.dependencies.Nodup

instance (e : Entry) : Decidable e.IsWritable :=
  decidable_of_iff ((∀ t ∈ [e.kind, e.name, e.path], '"' ∉ t) ∧ (∀ t ∈ [e.kind, e.name, e.path], '\n' ∉ t) ∧
      e.dependencies.Nodup)
    ⟨fun ⟨unquoted, oneLine, nodup⟩ => ⟨unquoted, oneLine, nodup⟩, fun h => ⟨h.unquoted, h.oneLine, h.dependencies⟩⟩

namespace Mapping

/-- What a mapping is about. -/
def given : Mapping → ActiveConfiguration
  | .active given | .build given => given

/-- The active configuration that a mapping states. -/
def active? : Mapping → Option ActiveConfiguration
  | .active given => some given
  | .build _ => none

/-- The project that a mapping says to build. -/
def built? : Mapping → Option ProjectId
  | .active _ => none
  | .build given => some given.project

/-- A mapping that can be written. -/
structure IsWritable (m : Mapping) : Prop where
  ofSolution : m.given.ofSolution.IsWritable
  ofProject : m.given.ofProject.IsWritable

instance (m : Mapping) : Decidable m.IsWritable :=
  decidable_of_iff (m.given.ofSolution.IsWritable ∧ m.given.ofProject.IsWritable)
    ⟨fun ⟨ofSolution, ofProject⟩ => ⟨ofSolution, ofProject⟩, fun h => ⟨h.ofSolution, h.ofProject⟩⟩

end Mapping

namespace Layout

/-- A layout that can be written. -/
structure IsWritable (l : Layout) : Prop where
  version : IsVersion l.formatVersion
  entries : ∀ e ∈ l.entries, e.IsWritable
  configurations : ∀ name ∈ l.configurations, name.IsWritable
  /-- No two names are equal up to case. -/
  distinct : l.configurations.Pairwise fun a b => a.key ≠ b.key
  mappings : ∀ m ∈ l.mappings, m.IsWritable
  remarks : ∀ remark ∈ l.remarks, '\n' ∉ remark

/-- What a layout says. -/
def listing (l : Layout) : Listing :=
  { formatVersion := some l.formatVersion
    environmentLine := none
    entries := l.entries
    configurations := l.configurations
    built := (l.mappings.filterMap Mapping.built?).eraseDups
    active := l.mappings.filterMap Mapping.active?
    problems := [] }

end Layout

namespace Listing

/-! ## Lines -/

section Lines

variable {l : Listing} {number : Nat}

theorem takeRaw_eq {place : Place} {raw line : Text} (trimmed : Text.trim raw = line) (busy : isIdle place line = false) :
    l.takeRaw place number raw = l.takeLine place number line := by
  rw [takeRaw, trimmed, busy]
  rfl

theorem takeRaw_blank : l.takeRaw .top number [] = (l, .top) := rfl

theorem takeRaw_remark (remark : Text) : l.takeRaw .top number ("# " ++ remark) = (l, .top) := by
  have solid : Text.isBlank '#' = false := by decide
  have idle : isIdle .top (Text.trim ("# " ++ remark)) := by
    show isIdle .top (Text.trim ('#' :: ' ' :: remark))
    rw [Text.trim_cons solid]
    simp [isIdle]
  rw [takeRaw, if_pos idle]

/-! ### The header -/

/-- The code points of the blanks. -/
def blankPoints : List Nat :=
  [9, 10, 11, 12, 13, 0x20, 0x85, 0xA0, 0x1680, 0x2000, 0x2001, 0x2002, 0x2003, 0x2004, 0x2005, 0x2006, 0x2007, 0x2008,
    0x2009, 0x200A, 0x2028, 0x2029, 0x202F, 0x205F, 0x3000]

theorem isBlank_of_isDecimalDigit {c : Char} (digit : Text.isDecimalDigit c) : Text.isBlank c = false := by
  have apart : ∀ n ∈ blankPoints, Text.inRanges Text.decimalDigitRanges n = false := by decide
  rw [Bool.eq_false_iff]
  intro blank
  have point : c.toNat ∈ blankPoints := by
    simp only [Text.isBlank, Bool.or_eq_true, Bool.and_eq_true, decide_eq_true_eq, beq_iff_eq] at blank
    simp only [blankPoints, List.mem_cons, List.not_mem_nil, or_false]
    omega
  exact absurd digit (Bool.eq_false_iff.1 (apart _ point))

theorem readVersion_eq_some {t : Text} (version : IsVersion t) : readVersion t = some t := by
  obtain ⟨whole, part, rfl, someWhole, somePart, digits⟩ := version
  rw [List.all_eq_true] at digits
  have point : ¬ Text.isDecimalDigit '.' := by decide
  have inWhole : ∀ c ∈ whole, Text.isDecimalDigit c := fun c mem => digits c (List.mem_append_left part mem)
  have inPart : ∀ c ∈ part, Text.isDecimalDigit c := fun c mem => digits c (List.mem_append_right whole mem)
  have taken : (whole ++ '.' :: part).takeWhile Text.isDecimalDigit = whole := by
    rw [List.takeWhile_append_of_pos inWhole, List.takeWhile_cons_of_neg point, List.append_nil]
  have left : (whole ++ '.' :: part).dropWhile Text.isDecimalDigit = '.' :: part := by
    rw [List.dropWhile_append_of_pos inWhole, List.dropWhile_cons_of_neg point]
  unfold readVersion
  simp [taken, left, List.takeWhile_eq_self_iff.2 inPart, someWhole, somePart]

theorem dropStart?_append (start rest : Text) : Text.dropStart? start (start ++ rest) = some rest := by
  simp [Text.dropStart?]

theorem takeRaw_header {version : Text} (h : IsVersion version) :
    l.takeRaw .top number (headerStart ++ version) = ({ l with formatVersion := some version }, .top) := by
  have trimmed : Text.trim (headerStart ++ version) = headerStart ++ version := by
    -- the last character of a version is a digit, and no digit of any script is a blank
    obtain ⟨whole, part, rfl, _, somePart, digits⟩ := h
    obtain ⟨init, last, rfl⟩ : ∃ init last, part = init ++ [last] := ⟨_, _, (List.dropLast_concat_getLast somePart).symm⟩
    have solid : Text.isBlank last = false := isBlank_of_isDecimalDigit (List.all_eq_true.1 digits last (by simp))
    have ends : headerStart ++ (whole ++ '.' :: (init ++ [last])) =
        'M' :: ((headerStart.tail ++ (whole ++ '.' :: init)) ++ [last]) := by
      rw [List.append_assoc, List.append_assoc]
      rfl
    rw [ends]
    exact Text.trim_cons_concat (by decide) solid
  have found : headerVersion? (headerStart ++ version) = some version := by
    rw [headerVersion?, dropStart?_append, Option.bind_some, readVersion_eq_some h]
  rw [takeRaw_eq trimmed rfl, takeLine, atTop, found]

/-! ### Projects -/

theorem quoted_append (t rest : Text) : quoted t ++ rest = '"' :: (t ++ '"' :: rest) := by
  simp [quoted]

theorem readQuoted_quoted {t : Text} (h : '"' ∉ t) (rest : Text) : readQuoted (quoted t ++ rest) = some (t, rest) := by
  rw [quoted_append, readQuoted, Text.splitOnce_append_cons h]

theorem trimStart_quoted (t rest : Text) : Text.trimStart (quoted t ++ rest) = quoted t ++ rest := by
  rw [quoted_append]
  exact Text.trimStart_append_cons (a := []) (by decide)

theorem readSeparator_quoted {separator : Char} (solid : Text.isBlank separator = false) {before : Text}
    (blank : ∀ c ∈ before, Text.isBlank c) (t rest : Text) :
    readSeparator separator (before ++ separator :: ' ' :: (quoted t ++ rest)) = some (quoted t ++ rest) := by
  have space : Text.trimStart (' ' :: (quoted t ++ rest)) = quoted t ++ rest := by
    rw [← trimStart_quoted t rest, ← Text.trimStart_append_left (a := [' ']) (Text.isBlank_of_isAllBlank rfl)]
    rfl
  have start : Text.trimStart (before ++ separator :: ' ' :: (quoted t ++ rest)) =
      separator :: ' ' :: (quoted t ++ rest) := by
    rw [Text.trimStart_append_left blank]
    exact Text.trimStart_append_cons (a := []) solid
  simp only [readSeparator, start, space, if_true]

/-- A project's line, cut where it is read. -/
theorem entryLine_eq (e : Entry) : e.line = String.toList "Project(" ++ (quoted e.kind ++ (String.toList ")" ++
    (String.toList " " ++ '=' :: ' ' :: (quoted e.name ++ (([] : Text) ++ ',' :: ' ' :: (quoted e.path ++
      (([] : Text) ++ ',' :: ' ' :: (quoted e.id.text ++ [])))))))) := by
  delta Entry.line
  simp

theorem entryTexts?_line {e : Entry} (h : e.IsWritable) :
    entryTexts? e.line = some ⟨e.kind, e.name, e.path, e.id.text⟩ := by
  have unquoted := h.unquoted
  simp only [List.forall_mem_cons] at unquoted
  obtain ⟨kind, name, path, _⟩ := unquoted
  have id : '"' ∉ e.id.text := fun mem => absurd (e.id.mem_symbols_of_mem_text mem) (by decide)
  rw [entryTexts?, entryLine_eq, dropStart?_append]
  simp only [Option.bind_eq_bind, Option.bind_some, readQuoted_quoted kind, dropStart?_append]
  rw [readSeparator_quoted (by decide) (Text.isBlank_of_isAllBlank rfl), Option.bind_some, readQuoted_quoted name]
  simp only [Option.bind_some]
  rw [readSeparator_quoted (by decide) (Text.isBlank_of_isAllBlank rfl), Option.bind_some, readQuoted_quoted path]
  simp only [Option.bind_some]
  rw [readSeparator_quoted (by decide) (Text.isBlank_of_isAllBlank rfl), Option.bind_some, readQuoted_quoted id]
  rfl

theorem trim_entryLine (e : Entry) : Text.trim e.line = e.line := by
  have ends : e.line = 'P' :: ((String.toList "roject(" ++ quoted e.kind ++ String.toList ") = " ++ quoted e.name ++
      String.toList ", " ++ quoted e.path ++ String.toList ", " ++ '"' :: e.id.text) ++ ['"']) := by
    delta Entry.line
    simp [quoted]
  rw [ends]
  exact Text.trim_cons_concat (by decide) (by decide)

theorem takeRaw_entry {e : Entry} (h : e.IsWritable) :
    l.takeRaw .top number e.line = (l, .project (some { e with dependencies := [] })) := by
  have start : "Project(".toList.isPrefixOf e.line := by
    rw [entryLine_eq, List.isPrefixOf_iff_prefix]
    exact List.prefix_append _ _
  have busy : isIdle .top e.line = false := by
    rw [entryLine_eq]
    rfl
  have entry : readEntry e.line = .ok { e with dependencies := [] } := by
    simp only [readEntry, entryTexts?_line h, ProjectId.parse_text]
  rw [takeRaw_eq (trim_entryLine e) busy, takeLine, atTop_of_isPrefixOf l number start, entry]

theorem takeRaw_dependencies (entry : Option Entry) :
    l.takeRaw (.project entry) number (sectionStart "Project" "ProjectDependencies" "postProject") =
      (l, .projectSection entry .dependencies) := rfl

theorem takeRaw_endProjectSection (entry : Option Entry) (kind : Section) :
    l.takeRaw (.projectSection entry kind) number (sectionEnd "Project") = (l, .project entry) := rfl

theorem takeRaw_endProject (entry : Option Entry) : l.takeRaw (.project entry) number (String.toList "EndProject") =
    ({ l with entries := l.entries ++ entry.toList }, .top) := rfl

theorem takeRaw_global : l.takeRaw .top number (String.toList "Global") = (l, .global) := rfl

theorem takeRaw_solutionConfigurations :
    l.takeRaw .global number (sectionStart "Global" "SolutionConfigurationPlatforms" "preSolution") =
      (l, .globalSection .solutionConfigurations) := rfl

theorem takeRaw_projectConfigurations :
    l.takeRaw .global number (sectionStart "Global" "ProjectConfigurationPlatforms" "postSolution") =
      (l, .globalSection .projectConfigurations) := rfl

theorem takeRaw_endGlobalSection (kind : Section) :
    l.takeRaw (.globalSection kind) number (sectionEnd "Global") = (l, .global) := rfl

theorem takeRaw_endGlobal : l.takeRaw .global number (String.toList "EndGlobal") = (l, .top) := rfl

/-! ### Assignments -/

/-- A written assignment is cut between its key and its value. -/
theorem exists_splitOnce_assignment {key : Text} (uncut : '=' ∉ key) (value : Text) :
    ∃ before after, Text.splitOnce '=' (Text.trim (sectionLine (assignment key value))) = some (before, after) ∧
      Text.trim before = Text.trim key ∧ Text.trim after = Text.trim value := by
  have line : sectionLine (assignment key value) = (['\t', '\t'] ++ (key ++ [' '])) ++ '=' :: ([' '] ++ value) := by
    simp [sectionLine, assignment]
  have clear : '=' ∉ ['\t', '\t'] ++ (key ++ [' ']) := by simp [uncut]
  refine ⟨Text.trimStart (['\t', '\t'] ++ (key ++ [' '])), Text.trimEnd ([' '] ++ value), ?_, ?_, ?_⟩
  · rw [line, Text.splitOnce_trim (by decide), Text.splitOnce_append_cons clear, Option.map_some]
  · rw [Text.trim_trimStart, Text.trim_append_left (Text.isBlank_of_isAllBlank rfl),
      Text.trim_append_right (Text.isBlank_of_isAllBlank rfl)]
  · rw [Text.trim_trimEnd, Text.trim_append_left (Text.isBlank_of_isAllBlank rfl)]

theorem ne_of_splitOnce {line other : Text} {parts : Text × Text} (cut : Text.splitOnce '=' line = some parts)
    (uncut : '=' ∉ other) : line ≠ other := by
  rintro rfl
  rw [Text.splitOnce_eq_none_iff.2 uncut] at cut
  cases cut

theorem takeRaw_dependency (e : Entry) (id : ProjectId) :
    l.takeRaw (.projectSection (some e) .dependencies) number (sectionLine (assignment id.text id.text)) =
      (l, .projectSection (some { e with dependencies := insertNew e.dependencies id }) .dependencies) := by
  have uncut : '=' ∉ id.text := fun mem => absurd (id.mem_symbols_of_mem_text mem) (by decide)
  obtain ⟨before, after, cut, key, _⟩ := exists_splitOnce_assignment uncut id.text
  have parsed : ProjectId.parse? before = some id := ProjectId.parse?_of_trim_eq (key.trans id.trim_text)
  rw [takeRaw_eq rfl (isIdle_eq_false (ne_of_splitOnce cut (by decide)) (by rintro ⟨⟩)), takeLine, inProjectSection,
    if_neg (ne_of_splitOnce cut (by decide))]
  simp only [cut, parsed]

theorem exists_takeRaw_assignment (l : Listing) (number : Nat) (kind : Section) {key : Text} (uncut : '=' ∉ key)
    (value : Text) :
    ∃ after, Text.trim after = Text.trim value ∧
      l.takeRaw (.globalSection kind) number (sectionLine (assignment key value)) =
        (l.addGlobal kind (Text.trim key) after, .globalSection kind) := by
  obtain ⟨before, after, cut, sameKey, sameValue⟩ := exists_splitOnce_assignment uncut value
  refine ⟨after, sameValue, ?_⟩
  rw [takeRaw_eq rfl (isIdle_eq_false (ne_of_splitOnce cut (by decide)) (by rintro ⟨⟩)), takeLine, inGlobalSection,
    if_neg (ne_of_splitOnce cut (by decide)), ← sameKey]
  simp only [cut]

theorem takeRaw_configuration {name : ConfigurationName} (h : name.IsWritable) :
    l.takeRaw (.globalSection .solutionConfigurations) number (sectionLine (assignment name.text name.text)) =
      ({ l with configurations := insertNew l.configurations name }, .globalSection .solutionConfigurations) := by
  obtain ⟨_, _, step⟩ := exists_takeRaw_assignment l number .solutionConfigurations h.uncut name.text
  rw [step, addGlobal, h.trimmed, h.ofText]

theorem dropEnd?_append (t ending : Text) : dropEnd? ending (t ++ ending) = some t := by
  rw [dropEnd?, List.reverse_append, dropStart?_append, Option.map_some, List.reverse_reverse]

/-- The key of a mapping, before its ending. -/
def mappingKey (given : ActiveConfiguration) : Text := given.project.text ++ "." ++ given.ofSolution.text

theorem splitOnce_mappingKey (given : ActiveConfiguration) (ending : Text) :
    Text.splitOnce '.' (mappingKey given ++ ending) = some (given.project.text, given.ofSolution.text ++ ending) := by
  have clear : '.' ∉ given.project.text := fun mem => absurd (given.project.mem_symbols_of_mem_text mem) (by decide)
  have cut : mappingKey given ++ ending = given.project.text ++ '.' :: (given.ofSolution.text ++ ending) := by
    simp [mappingKey]
  rw [cut, Text.splitOnce_append_cons clear]

theorem trim_mappingKey (given : ActiveConfiguration) (ending : Text) {last : Char} (solid : Text.isBlank last = false) :
    Text.trim (mappingKey given ++ (ending ++ [last])) = mappingKey given ++ (ending ++ [last]) := by
  have ends : mappingKey given ++ (ending ++ [last]) =
      '\x7b' :: ((Text.join "-" given.project.groups ++ ['\x7d'] ++ '.' :: given.ofSolution.text ++ ending) ++ [last]) := by
    simp [mappingKey, ProjectId.text_eq]
  rw [ends]
  exact Text.trim_cons_concat (by decide) solid

theorem equals_not_mem_mappingKey {given : ActiveConfiguration} (h : given.ofSolution.IsWritable) (ending : Text)
    (uncut : '=' ∉ ending) : '=' ∉ mappingKey given ++ ending := by
  have id : '=' ∉ given.project.text := fun mem => absurd (given.project.mem_symbols_of_mem_text mem) (by decide)
  simp [mappingKey, id, h.uncut, uncut]

theorem parse?_projectText (id : ProjectId) : ProjectId.parse? id.text = some id :=
  ProjectId.parse?_of_trim_eq id.trim_text

/-- The key of an active configuration says so, and not that something is built. -/
theorem activeKey?_mappingKey {given : ActiveConfiguration} (h : given.ofSolution.IsWritable) :
    builtProject? (mappingKey given ++ ".ActiveCfg".toList) = none ∧
      activeKey? (mappingKey given ++ ".ActiveCfg".toList) = some (given.project, given.ofSolution) := by
  constructor
  · have other : dropEnd? ".Build.0".toList (mappingKey given ++ ".ActiveCfg".toList) = none := by
      rw [dropEnd?, List.reverse_append]
      rfl
    rw [builtProject?, other]
    rfl
  · have cut := splitOnce_mappingKey given []
    rw [List.append_nil, List.append_nil] at cut
    rw [activeKey?, dropEnd?_append]
    simp only [Option.bind_eq_bind, Option.bind_some, cut, parse?_projectText, h.ofText, Option.pure_def]

theorem builtProject?_mappingKey (given : ActiveConfiguration) :
    builtProject? (mappingKey given ++ ".Build.0".toList) = some given.project := by
  rw [builtProject?, dropEnd?_append, splitOnce_mappingKey]
  simp only [Option.isSome_some, if_true, Option.bind_some, parse?_projectText]

/-- What a mapping adds to a listing. -/
def addMapping (l : Listing) (m : Mapping) : Listing :=
  { l with
    built := m.built?.toList.foldl insertNew l.built
    active := l.active ++ m.active?.toList }

theorem takeRaw_mapping {m : Mapping} (h : m.IsWritable) :
    l.takeRaw (.globalSection .projectConfigurations) number (sectionLine m.line) =
      (l.addMapping m, .globalSection .projectConfigurations) := by
  cases m with
  | active given =>
    have ofSolution : given.ofSolution.IsWritable := h.ofSolution
    have ofProject : given.ofProject.IsWritable := h.ofProject
    have uncut := equals_not_mem_mappingKey ofSolution ".ActiveCfg".toList (by decide)
    obtain ⟨after, value, step⟩ := exists_takeRaw_assignment l number .projectConfigurations uncut
      given.ofProject.text
    have trimmed : Text.trim (mappingKey given ++ ".ActiveCfg".toList) = mappingKey given ++ ".ActiveCfg".toList :=
      trim_mappingKey given (String.toList ".ActiveCf") (by decide)
    have name : ConfigurationName.ofText after = given.ofProject := by
      rw [ConfigurationName.ofText, value, ofProject.trimmed]
    obtain ⟨notBuilt, active⟩ := activeKey?_mappingKey ofSolution
    show l.takeRaw _ _ (sectionLine (assignment (mappingKey given ++ ".ActiveCfg".toList) given.ofProject.text)) = _
    rw [step, addGlobal, trimmed]
    simp only [notBuilt, active, name]
    rfl
  | build given =>
    have ofSolution : given.ofSolution.IsWritable := h.ofSolution
    have uncut := equals_not_mem_mappingKey ofSolution ".Build.0".toList (by decide)
    obtain ⟨after, _, step⟩ := exists_takeRaw_assignment l number .projectConfigurations uncut
      given.ofProject.text
    have trimmed : Text.trim (mappingKey given ++ ".Build.0".toList) = mappingKey given ++ ".Build.0".toList :=
      trim_mappingKey given (String.toList ".Build.") (by decide)
    have built := builtProject?_mappingKey given
    show l.takeRaw _ _ (sectionLine (assignment (mappingKey given ++ ".Build.0".toList) given.ofProject.text)) = _
    rw [step, addGlobal, trimmed]
    simp only [built, addMapping, Mapping.built?, Mapping.active?, Option.toList_some, Option.toList_none, List.foldl_cons,
      List.foldl_nil, List.append_nil]

end Lines

/-! ## Runs -/

section Runs

variable {l l' : Listing} {place place' : Place} {number : Nat}

theorem takeLines_append_of {xs : List Text} (run : l.takeLines place number xs = (l', place')) (ys : List Text) :
    l.takeLines place number (xs ++ ys) = l'.takeLines place' (number + xs.length) ys := by
  rw [takeLines_append, run]

/-- Lines of one kind, each of which takes the reader from a state to the next one. -/
theorem takeLines_map {σ ε : Type} (reader : σ → Listing × Place) (next : σ → ε → σ) {line : ε → Text} {items : List ε}
    (step : ∀ x ∈ items, ∀ state number,
      (reader state).1.takeRaw (reader state).2 number (line x) = reader (next state x)) (state : σ) :
    (reader state).1.takeLines (reader state).2 number (items.map line) = reader (items.foldl next state) := by
  induction items generalizing state number with
  | nil => rfl
  | cons x items ih =>
    rw [List.forall_mem_cons] at step
    rw [List.map_cons, takeLines_step (step.1 state number), ih step.2, List.foldl_cons]

theorem takeLines_remarks (remarks : List Text) :
    l.takeLines .top number (remarks.map fun remark : Text => "# " ++ remark) = (l, .top) :=
  takeLines_map (fun _ : Unit => (l, .top)) (fun state _ => state) (fun remark _ _ _ => takeRaw_remark remark) ()

theorem takeLines_dependencies (l : Listing) (number : Nat) (e : Entry) (ids : List ProjectId) :
    l.takeLines (.projectSection (some e) .dependencies) number
        (ids.map fun id => sectionLine (assignment id.text id.text)) =
      (l, .projectSection (some { e with dependencies := ids.foldl insertNew e.dependencies }) .dependencies) :=
  takeLines_map (fun known => (l, .projectSection (some { e with dependencies := known }) .dependencies)) insertNew
    (fun id _ _ _ => takeRaw_dependency _ id) e.dependencies

theorem takeLines_configurations {names : List ConfigurationName} (h : ∀ name ∈ names, name.IsWritable) :
    l.takeLines (.globalSection .solutionConfigurations) number
        (names.map fun name => sectionLine (assignment name.text name.text)) =
      ({ l with configurations := names.foldl insertNew l.configurations }, .globalSection .solutionConfigurations) :=
  takeLines_map (fun known => ({ l with configurations := known }, .globalSection .solutionConfigurations)) insertNew
    (fun name mem _ _ => takeRaw_configuration (h name mem)) l.configurations

theorem takeLines_mappings {ms : List Mapping} (h : ∀ m ∈ ms, m.IsWritable) :
    l.takeLines (.globalSection .projectConfigurations) number (ms.map fun m => sectionLine m.line) =
      (ms.foldl addMapping l, .globalSection .projectConfigurations) :=
  takeLines_map (fun l => (l, .globalSection .projectConfigurations)) addMapping
    (fun m mem _ _ => takeRaw_mapping (h m mem)) l

theorem foldl_addMapping (ms : List Mapping) (l : Listing) : ms.foldl addMapping l =
    { l with
      built := (ms.filterMap Mapping.built?).foldl insertNew l.built
      active := l.active ++ ms.filterMap Mapping.active? } := by
  induction ms generalizing l with
  | nil => simp
  | cons m ms ih =>
    rw [List.foldl_cons, ih]
    cases m <;> simp [addMapping, Mapping.built?, Mapping.active?, List.filterMap_cons]

/-- The lines of a section, between the one that opens it and the one that closes it. -/
theorem takeLines_section {block name moment : Text} {entries : List Text} {inside inside' after : Place}
    (start : l.takeRaw place number (sectionStart block name moment) = (l, inside))
    (run : l.takeLines inside (number + 1) (entries.map sectionLine) = (l', inside'))
    (stop : ∀ number, l'.takeRaw inside' number (sectionEnd block) = (l', after)) :
    l.takeLines place number (sectionLines block name moment entries) = (l', after) := by
  rw [sectionLines, List.cons_append, takeLines_step start, takeLines_append_of run, takeLines_step (stop _)]
  rfl

/-- The block of a project gives its entry. -/
theorem takeLines_entry {e : Entry} (h : e.IsWritable) :
    l.takeLines .top number e.lines = ({ l with entries := l.entries ++ [e] }, .top) := by
  have dependencies : e.dependencies.foldl insertNew [] = e.dependencies := by
    rw [foldl_insertNew_of_pairwise _ (fun _ _ => rfl), List.nil_append]
    exact h.dependencies.imp fun differ => beq_eq_false_iff_ne.2 (Ne.symm differ)
  have lines : l.takeLines (.project (some { e with dependencies := [] })) (number + 1)
      (if (e.dependencies.map fun id => assignment id.text id.text).isEmpty then []
        else sectionLines "Project" "ProjectDependencies" "postProject"
          (e.dependencies.map fun id => assignment id.text id.text)) = (l, .project (some e)) := by
    split
    · rename_i none
      have none : e.dependencies = [] := by simpa using none
      rw [takeLines, ← none]
    · refine takeLines_section (takeRaw_dependencies _) ?_ (fun _ => takeRaw_endProjectSection _ .dependencies)
      rw [List.map_map]
      have run := takeLines_dependencies l (number + 1 + 1) { e with dependencies := [] } e.dependencies
      rw [dependencies] at run
      exact run
  rw [Entry.lines, List.cons_append, takeLines_step (takeRaw_entry h), takeLines_append_of lines,
    takeLines_step (takeRaw_endProject _)]
  rfl

theorem takeLines_entries {entries : List Entry} (h : ∀ e ∈ entries, e.IsWritable) :
    l.takeLines .top number (entries.flatMap Entry.lines) = ({ l with entries := l.entries ++ entries }, .top) := by
  induction entries generalizing l number with
  | nil => simp [takeLines]
  | cons e entries ih =>
    rw [List.forall_mem_cons] at h
    rw [List.flatMap_cons, takeLines_append_of (takeLines_entry h.1), ih h.2, List.append_assoc, List.singleton_append]

end Runs

/-! ## The whole file -/

section Whole

variable {l : Layout}

theorem foldl_insertNew_configurations (h : l.IsWritable) : l.configurations.foldl insertNew [] = l.configurations := by
  rw [foldl_insertNew_of_pairwise _ (fun _ _ => rfl), List.nil_append]
  exact h.distinct.imp fun differ => beq_eq_false_iff_ne.2 (Ne.symm differ)

/-- The lines of a layout are taken in for what it says. -/
theorem takeLines_lines (h : l.IsWritable) : empty.takeLines .top 1 l.lines = (l.listing, .top) := by
  have configurations (read : Listing) (number : Nat) :
      read.takeLines .global number (sectionLines "Global" "SolutionConfigurationPlatforms" "preSolution"
        (l.configurations.map fun name => assignment name.text name.text)) =
      ({ read with configurations := l.configurations.foldl insertNew read.configurations }, .global) := by
    refine takeLines_section takeRaw_solutionConfigurations ?_ (fun _ => takeRaw_endGlobalSection .solutionConfigurations)
    rw [List.map_map]
    exact takeLines_configurations h.configurations
  have mappings (read : Listing) (number : Nat) :
      read.takeLines .global number (sectionLines "Global" "ProjectConfigurationPlatforms" "postSolution"
        (l.mappings.map Mapping.line)) = (l.mappings.foldl addMapping read, .global) := by
    refine takeLines_section takeRaw_projectConfigurations ?_ (fun _ => takeRaw_endGlobalSection .projectConfigurations)
    rw [List.map_map]
    exact takeLines_mappings h.mappings
  simp only [Layout.lines, List.append_assoc]
  rw [List.cons_append, takeLines_step takeRaw_blank, List.cons_append, takeLines_step (takeRaw_header h.version),
    List.nil_append, takeLines_append_of (takeLines_remarks l.remarks), takeLines_append_of (takeLines_entries h.entries),
    List.cons_append, takeLines_step takeRaw_global, List.nil_append, takeLines_append_of (configurations _ _),
    takeLines_append_of (mappings _ _), takeLines_step takeRaw_endGlobal, foldl_addMapping]
  simp only [takeLines, empty, Layout.listing, List.nil_append, foldl_insertNew_configurations h, foldl_insertNew_nil]

/-! ### Every line is one line -/

theorem newline_not_mem_assignment {key value : Text} (oneKey : '\n' ∉ key) (oneValue : '\n' ∉ value) :
    '\n' ∉ assignment key value := by
  simp [assignment, oneKey, oneValue]

theorem newline_not_mem_sectionLines {block name moment : Text} {entries : List Text}
    (header : '\n' ∉ block ++ name ++ moment) (one : ∀ entry ∈ entries, '\n' ∉ entry) :
    ∀ line ∈ sectionLines block name moment entries, '\n' ∉ line := by
  simp only [List.mem_append, not_or] at header
  intro line mem
  simp only [sectionLines, List.cons_append, List.mem_cons, List.mem_append, List.mem_map, List.not_mem_nil, or_false] at mem
  obtain rfl | ⟨entry, mem, rfl⟩ | rfl := mem
  · simp [sectionStart, header]
  · simp [sectionLine, one entry mem]
  · simp [sectionEnd, header]

theorem newline_not_mem_id (id : ProjectId) : '\n' ∉ id.text :=
  fun mem => absurd (id.mem_symbols_of_mem_text mem) (by decide)

theorem newline_not_mem_entryLines {e : Entry} (h : e.IsWritable) : ∀ line ∈ e.lines, '\n' ∉ line := by
  have oneLine := h.oneLine
  simp only [List.forall_mem_cons] at oneLine
  obtain ⟨kind, name, path, _⟩ := oneLine
  have first : '\n' ∉ e.line := by
    rw [entryLine_eq]
    simp [quoted, kind, name, path, newline_not_mem_id]
  have dependencies : ∀ entry ∈ e.dependencies.map fun id => assignment id.text id.text, '\n' ∉ entry := by
    rw [List.forall_mem_map]
    exact fun id _ => newline_not_mem_assignment (newline_not_mem_id id) (newline_not_mem_id id)
  intro line mem
  simp only [Entry.lines, List.cons_append, List.mem_cons, List.mem_append, List.not_mem_nil, or_false] at mem
  obtain rfl | inSection | rfl := mem
  · exact first
  · split at inSection
    · cases inSection
    · exact newline_not_mem_sectionLines (by decide) dependencies line inSection
  · decide

theorem newline_not_mem_mappingLine {m : Mapping} (h : m.IsWritable) : '\n' ∉ m.line := by
  cases m with
  | active given | build given =>
    have ofSolution : '\n' ∉ given.ofSolution.text := h.ofSolution.oneLine
    refine newline_not_mem_assignment ?_ h.ofProject.oneLine
    simp [ofSolution, newline_not_mem_id]

theorem newline_not_mem_version {version : Text} (h : IsVersion version) : '\n' ∉ version := by
  have newline : Text.isDecimalDigit '\n' = false := by decide
  obtain ⟨whole, part, rfl, _, _, digits⟩ := h
  intro mem
  have mem : '\n' ∈ whole ++ part := by simpa using mem
  exact Bool.eq_false_iff.1 newline (List.all_eq_true.1 digits _ mem)

theorem newline_not_mem_lines (h : l.IsWritable) : ∀ line ∈ l.lines, '\n' ∉ line := by
  have configurations : ∀ entry ∈ l.configurations.map fun name => assignment name.text name.text, '\n' ∉ entry := by
    rw [List.forall_mem_map]
    exact fun name mem =>
      newline_not_mem_assignment (h.configurations name mem).oneLine (h.configurations name mem).oneLine
  have mappings : ∀ entry ∈ l.mappings.map Mapping.line, '\n' ∉ entry := by
    rw [List.forall_mem_map]
    exact fun m mem => newline_not_mem_mappingLine (h.mappings m mem)
  intro line mem
  simp only [Layout.lines, List.mem_append, List.mem_cons, List.mem_map, List.mem_flatMap, List.not_mem_nil, or_false,
    or_assoc] at mem
  obtain rfl | rfl | ⟨remark, mem, rfl⟩ | ⟨e, mem, inEntry⟩ | rfl | inSection | inSection | rfl := mem
  · simp
  · have start : '\n' ∉ headerStart := by decide
    simp [start, newline_not_mem_version h.version]
  · simp [h.remarks remark mem]
  · exact newline_not_mem_entryLines (h.entries e mem) line inEntry
  · decide
  · exact newline_not_mem_sectionLines (by decide) configurations line inSection
  · exact newline_not_mem_sectionLines (by decide) mappings line inSection
  · decide

/-- **Reading a written solution file gives back what was written**, without a problem. -/
theorem read_print (l : Layout) (h : l.IsWritable) : read l.print = l.listing := by
  have start : l.print.dropWhile (· = Char.ofNat 0xFEFF) = l.print := rfl
  have lines : Text.lines l.print = l.lines.map Text.dropReturn := Text.lines_flatMap (newline_not_mem_lines h)
  -- a remark may end in a carriage return, which does not come back
  have trimmed : (l.lines.map Text.dropReturn).map Text.trim = l.lines.map Text.trim := by
    rw [List.map_map]
    exact List.map_congr_left fun line _ => Text.trim_dropReturn line
  rw [read, start, lines, takeLines_congr trimmed, takeLines_lines h]

end Whole

namespace Sample

/-- An id of two digits in turn. -/
def idOf (digit : Nat) : ProjectId :=
  ⟨(List.replicate 16 [⟨min digit 15, by omega⟩, ⟨10, by decide⟩]).flatten, rfl⟩

/-- A configuration with the name of a key, and its neighbour. -/
def names : List ConfigurationName := [⟨"Release.Build.0|x (64)"⟩, ⟨"EndGlobalSection"⟩]

/-- A solution whose texts and names look like lines of the format. -/
def layout : Layout :=
  { formatVersion := "12.00"
    entries := [
      ⟨"Global", "Project(#1), .ActiveCfg", "  sub\\EndProject = x.vcxproj ", idOf 1, [idOf 2, idOf 11]⟩,
      ⟨[], "EndProject", "ProjectSection(ProjectDependencies)", idOf 2, []⟩]
    configurations := names
    mappings := names.flatMap fun name =>
      [.active ⟨idOf 1, name, ⟨"Debug.ActiveCfg"⟩⟩, .build ⟨idOf 1, name, ⟨"Debug.ActiveCfg"⟩⟩]
    remarks := [String.toList "Global"] }

theorem isWritable_layout : layout.IsWritable where
  version := ⟨['1', '2'], ['0', '0'], by decide⟩
  entries := by decide +kernel
  configurations := by decide +kernel
  distinct := by decide
  mappings := by decide +kernel
  remarks := by decide

end Sample

/-- The sample is read back: both entries, both names, an active configuration under each of them, and the one project that
is built. -/
theorem read_print_layout : read Sample.layout.print = Sample.layout.listing ∧
    (read Sample.layout.print).active.length = 2 ∧ (read Sample.layout.print).built = [Sample.idOf 1] := by
  have same := read_print Sample.layout Sample.isWritable_layout
  exact ⟨same, by rw [same]; decide, by rw [same]; decide⟩

end Listing

end Solution

end SolutionGraph
