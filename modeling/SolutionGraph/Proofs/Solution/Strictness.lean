import SolutionGraph.Proofs.Solution.Findings
import SolutionGraph.Solution.Writer

/-!
# Strict and lenient readings

A strict reading ends at the first of its findings that is an error, and a lenient one goes on; up to there, they find the
same (`parse_eq`).

* **findings**: an entry adds its own findings to those before it (`readEntryProject_snd`), so those of all entries are
  known (`foldl_readEntryProject_snd`), and each finding is about something in the solution (`isAbout_build`);
* **errors**: what ends the strict reading is a warning of the solution that the lenient one gives (`warned_of_firstFatal?`);
* **`parse_strict`**: a strict reading that succeeds gives what the lenient one gives, and the error of one that fails
  is a warning of the lenient one (`Warned`).
-/

namespace SolutionGraph.Solution

/-! ## Findings -/

/-- The findings about one entry. -/
def entryFindings (tree : FileTree) (options : Project.Options) (dir : Path) (e : Entry) : List Finding :=
  (readEntryProject tree options dir (.empty, []) e).2

section Findings

variable {tree : FileTree} {options : Project.Options} {dir : Path}

theorem readEntryProject_snd (state : Linked × List Finding) (e : Entry) :
    (readEntryProject tree options dir state e).2 = state.2 ++ entryFindings tree options dir e := by
  unfold entryFindings readEntryProject
  simp only
  split
  · simp
  · split
    · split <;> simp
    · simp

/-- **The findings of all entries**, one entry after the other. -/
theorem foldl_readEntryProject_snd (state : Linked × List Finding) (entries : List Entry) :
    (entries.foldl (readEntryProject tree options dir) state).2 =
      state.2 ++ entries.flatMap (entryFindings tree options dir) := by
  induction entries generalizing state with
  | nil => simp
  | cons e rest ih => rw [List.foldl_cons, ih, readEntryProject_snd, List.flatMap_cons, List.append_assoc]

end Findings

/-- The directory of a solution file. -/
def dirOf (path : Path) : Path := path.parent?.getD ⟨[]⟩

/-- How the projects of a solution file are read. -/
def projectOptions (options : Options) (path : Path) : Project.Options := ⟨some (dirOf path), options.systemIncludeDirs⟩

/-- The descriptor of an entry of a solution file cannot be read. -/
structure Fails (tree : FileTree) (options : Options) (path : Path) (e : Entry) (cause : ProjectError) : Prop where
  isEntry : e.isFolder = false
  isDescriptor : isDescriptor (Path.absolutize (dirOf path) e.path)
  parse : Project.parse tree (projectOptions options path) (Path.absolutize (dirOf path) e.path) e.id e.name =
    .error cause

/-- What a finding is about, where it is an error of a strict reading. -/
def Finding.IsAbout (tree : FileTree) (options : Options) (path : Path) (l : Listing) : Finding → Prop
  | .problem file _ => file = path
  | .unreadable descriptor name cause =>
    ∃ e ∈ l.entries, e.name = name ∧ Path.absolutize (dirOf path) e.path = descriptor ∧ Fails tree options path e cause
  | .unknownRoot id => id ∈ options.roots
  | _ => True

section Building

variable {tree : FileTree} {options : Options} {path : Path} {dialect : Dialect} {l : Listing} {s : Solution}
variable {f : Finding}

theorem isAbout_entryFindings {e : Entry} (mem : e ∈ l.entries)
    (found : f ∈ entryFindings tree (projectOptions options path) (dirOf path) e) : f.IsAbout tree options path l := by
  unfold entryFindings readEntryProject at found
  simp only at found
  split at found
  · cases found
  · rename_i isEntry
    split at found
    · rename_i isDescriptor
      split at found
      · obtain ⟨w, _, rfl⟩ := List.mem_map.1 found
        trivial
      · rename_i cause error
        rw [List.nil_append, List.mem_singleton] at found
        subst found
        exact ⟨e, mem, rfl, rfl, Bool.eq_false_iff.2 isEntry, isDescriptor, error⟩
    · rw [List.nil_append, List.mem_singleton] at found
      subst found
      trivial

theorem isAbout_checkHeader (found : f ∈ checkHeader path l dialect) : f.IsAbout tree options path l := by
  unfold checkHeader at found
  rcases List.mem_append.1 found with format | environment
  · split at format
    · rw [List.mem_singleton.1 format]
      rfl
    · split at format
      · cases format
      · rw [List.mem_singleton.1 format]
        rfl
  · split at environment
    · split at environment
      · cases environment
      · rw [List.mem_singleton.1 environment]
        trivial
    · cases environment

theorem isAbout_rootSet {projects : OrderedMap ProjectId Project}
    (found : f ∈ (rootSet l options.roots projects).2) : f.IsAbout tree options path l := by
  unfold rootSet at found
  split at found
  · cases found
  · obtain ⟨id, mem, rfl⟩ := List.mem_map.1 found
    exact (List.mem_filter.1 mem).1

/-- **Each finding is about something** that the solution file lists, or that was asked for. -/
theorem isAbout_build (found : f ∈ (build tree options path dialect l).1) : f.IsAbout tree options path l := by
  -- a repeated id ends the reading after these findings, so they come alone or before the others
  have early : f ∈ checkHeader path l dialect ++ l.problems.map (Finding.problem path) →
      f.IsAbout tree options path l := by
    intro found
    rcases List.mem_append.1 found with found | found
    · exact isAbout_checkHeader found
    · obtain ⟨_, _, rfl⟩ := List.mem_map.1 found
      rfl
  unfold build at found
  simp only at found
  split at found
  · exact early found
  · simp only [foldl_readEntryProject_snd, List.nil_append] at found
    rcases List.mem_append.1 found with found | ofRoots
    · rcases List.mem_append.1 found with found | dangling
      · rcases List.mem_append.1 found with found | ofEntries
        · exact early found
        · obtain ⟨e, mem, found⟩ := List.mem_flatMap.1 ofEntries
          exact isAbout_entryFindings mem found
      · obtain ⟨_, _, rfl⟩ := List.mem_map.1 dangling
        trivial
    · split at ofRoots
      · exact isAbout_rootSet ofRoots
      · cases ofRoots

end Building

/-! ## What strictness does -/

/-- The solution has the warning that stands for an error. -/
def Warned (tree : FileTree) (options : Options) (l : Listing) (s : Solution) : SolutionError → Prop
  | .parse path line fault =>
    path = s.path ∧ .parse s.path ("line " ++ Text.ofNat line ++ ": " ++ fault.message) ∈ s.warnings
  | .project name cause => ∃ e ∈ l.entries, e.name = name ∧ Fails tree options s.path e cause ∧
    .parse (Path.absolutize (dirOf s.path) e.path) cause.message ∈ s.warnings
  | .unknownReference project reference => .unresolvedReference project reference ∈ s.warnings
  | .unknownRoot root => root ∈ options.roots ∧ .unknownRoot root.text ∈ s.warnings
  | .notFound _ | .disk _ _ | .duplicateProject _ _ _ | .unsupportedToolVersion _ => False

section Strictness

variable {tree : FileTree} {options : Options} {l : Listing} {s : Solution}

/-- The warning of a finding stands for its error. -/
theorem warned_of_fatal? {f : Finding} {e : SolutionError} (about : f.IsAbout tree options s.path l)
    (warning : f.warning ∈ s.warnings) (fatal : f.fatal? = some e) : Warned tree options l s e := by
  cases f with
  | problem path found =>
    cases fatal
    cases about
    exact ⟨rfl, warning⟩
  | unreadable descriptor name cause =>
    cases fatal
    obtain ⟨entry, mem, named, rfl, fails⟩ := about
    exact ⟨entry, mem, named, fails, warning⟩
  | dangling found =>
    cases fatal
    exact warning
  | unknownRoot id =>
    cases fatal
    exact ⟨about, warning⟩
  | foreignHeader => cases fatal
  | skipped => cases fatal
  | noted => cases fatal

/-- An error among the findings of a solution that was built is one of its warnings. -/
theorem warned_of_firstFatal? {path : Path} {dialect : Dialect} {e : SolutionError}
    (built : (build tree options path dialect l).2 = .ok s)
    (fatal : Finding.firstFatal? (build tree options path dialect l).1 = some e) : Warned tree options l s e := by
  obtain ⟨rfl, warnings⟩ := build_eq_ok_warnings built
  obtain ⟨f, found, fatal⟩ := List.exists_of_findSome?_eq_some fatal
  refine warned_of_fatal? (isAbout_build found) ?_ fatal
  rw [warnings]
  exact List.mem_map_of_mem found

theorem parse_with_strict (tree : FileTree) (options : Options) (strict : Bool) :
    parse tree { options with strict } = (opened tree options).bind fun file =>
      settle strict (build tree options (solutionFile tree options) file.1 (Listing.read file.2)) :=
  parse_eq tree { options with strict }

/-- **Strictness only rejects.** If a strict reading succeeds, the lenient one gives the same solution with the same
warnings. If the strict one fails where the lenient one succeeds, the solution has the warning that stands for the
error. -/
theorem parse_strict (tree : FileTree) (options : Options) :
    (∀ s, parse tree { options with strict := true } = .ok s → parse tree { options with strict := false } = .ok s) ∧
      ∀ s e, parse tree { options with strict := false } = .ok s →
        parse tree { options with strict := true } = .error e →
        ∃ text, tree.readText (solutionFile tree options) = .ok text ∧ Warned tree options (Listing.read text) s e := by
  rw [parse_with_strict tree options true, parse_with_strict tree options false]
  cases file : opened tree options with
  | error e => exact ⟨nofun, nofun⟩
  | ok found =>
    obtain ⟨dialect, text⟩ := found
    let built := build tree options (solutionFile tree options) dialect (Listing.read text)
    -- up to the first finding that is an error both readings find the same, so they part only there
    have lenient : settle false built = built.2 := rfl
    cases fatal : Finding.firstFatal? built.1 with
    | none =>
      have strict : settle true built = built.2 := by rw [settle, stop?, if_pos rfl, fatal]
      refine ⟨fun s ok => lenient.trans (strict.symm.trans ok), fun s e ok error => ?_⟩
      cases (lenient.symm.trans ok).symm.trans (strict.symm.trans error)
    | some first =>
      have strict : settle true built = .error first := by rw [settle, stop?, if_pos rfl, fatal]
      refine ⟨fun s ok => ?_, fun s e ok error => ?_⟩
      · cases strict.symm.trans ok
      · cases strict.symm.trans error
        exact ⟨text, readText_of_opened file, warned_of_firstFatal? (lenient.symm.trans ok) fatal⟩

end Strictness

namespace Sample

/-- The id whose digits are all the same. -/
def idOf (digit : Nat) : ProjectId := ⟨List.replicate 32 ⟨digit % 16, Nat.mod_lt digit (by decide)⟩, rfl⟩

/-- A project, with its descriptor beside the solution file. -/
def entryOf (name : Text) (id : ProjectId) (dependencies : List ProjectId) : Entry :=
  ⟨[], name, name ++ ".vcxproj", id, dependencies⟩

/-- A solution file, and empty descriptors of its projects. -/
def treeOf (l : Layout) : FileTree :=
  let descriptors := l.entries.map fun e => (e.path, FileNode.file (Text.encode "<Project/>"))
  ⟨.dir [("w", .dir (("s.sln", .file (Text.encode l.print)) :: descriptors))], ["w"]⟩

/-- How the sample solutions are read. -/
def reading (roots : List ProjectId) : Options := ⟨"/w/s.sln", "", true, true, "12.0", roots, .sensitive, []⟩

/-- A solution of one project. -/
def solo : Layout := ⟨"12.00", [entryOf "A" (idOf 1) []], [], [], []⟩

/-- The error of a reading, if it has one. -/
def errorOf : Except SolutionError Solution → Option SolutionError
  | .error e => some e
  | .ok _ => none

theorem eq_error_of_errorOf {outcome : Except SolutionError Solution} {e : SolutionError}
    (h : errorOf outcome = some e) : outcome = .error e := by
  cases outcome with
  | error => exact congrArg _ (Option.some.inj h)
  | ok => cases h

theorem exists_ok_of_errorOf {outcome : Except SolutionError Solution} (h : errorOf outcome = none) :
    ∃ s, outcome = .ok s := by
  cases outcome with
  | error => cases h
  | ok s => exact ⟨s, rfl⟩

theorem errorOf_parse_solo : errorOf (parse (treeOf solo) (reading [])) = none ∧
    errorOf (parse (treeOf solo) (reading [idOf 2])) = some (.unknownRoot (idOf 2)) ∧
    errorOf (parse (treeOf solo) { reading [idOf 2] with strict := false }) = none := by
  decide +kernel

end Sample

/-- The sample can be read strictly. With a root that it does not have, it can be read leniently only, and that root has
a warning. -/
theorem strict_sample :
    (∃ s, parse (Sample.treeOf Sample.solo) (Sample.reading []) = .ok s ∧
      parse (Sample.treeOf Sample.solo) { Sample.reading [] with strict := false } = .ok s) ∧
    ∃ s, parse (Sample.treeOf Sample.solo) { Sample.reading [Sample.idOf 2] with strict := false } = .ok s ∧
      parse (Sample.treeOf Sample.solo) (Sample.reading [Sample.idOf 2]) = .error (.unknownRoot (Sample.idOf 2)) ∧
      .unknownRoot (Sample.idOf 2).text ∈ s.warnings := by
  obtain ⟨accepted, rejected, lenient⟩ := Sample.errorOf_parse_solo
  obtain ⟨s, strict⟩ := Sample.exists_ok_of_errorOf accepted
  obtain ⟨s', lenient⟩ := Sample.exists_ok_of_errorOf lenient
  have error := Sample.eq_error_of_errorOf rejected
  obtain ⟨_, _, warned⟩ := (parse_strict _ (Sample.reading [Sample.idOf 2])).2 s' _ lenient error
  exact ⟨⟨s, strict, (parse_strict _ (Sample.reading [])).1 s strict⟩, s', lenient, error, warned.2⟩

end SolutionGraph.Solution
