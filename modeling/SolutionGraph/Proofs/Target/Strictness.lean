import SolutionGraph.Proofs.Target.Assembly

/-!
# Strict imports

If imports are strict, the first one that fails ends the loading. `buildTree` looks for it among the findings when all is
loaded; `runStrict` stops where it is met, and so does `buildStrict`.

* **findings only grow** (`adds_run`): what a step finds comes after what was found before (`Adds`), and a script that is
  told to be broken is broken (`isTrue_of_load`);
* **stopping** (`runStrict_eq`): so the first failure that `runStrict` meets is the first one among the findings, and if
  it meets none, both runs end in the same state;
* **warnings** (`buildTree_strict_cases`): what is fatal in a strict build is a warning of the tree that a lenient one
  ends with.

`buildTree_strict` puts them together: strict imports reject scripts, and change nothing else.
-/

namespace SolutionGraph.Target

open Markup (Element)

/-! ## What is found on the way -/

/-- A finding is true of the files: a script that is told to be broken cannot be read. -/
def Finding.IsTrue (tree : FileTree) : Finding → Prop
  | .brokenImport path fault => readScript tree path = .error fault
  | _ => True

/-- What a state has found beyond another one, all of one kind. -/
def Adds (kind : Finding → Prop) (s s' : Loading) : Prop := ∃ more, s'.findings = s.findings ++ more ∧ ∀ f ∈ more, kind f

namespace Adds

variable {kind kind' : Finding → Prop} {s s' s'' : Loading}

theorem refl (s : Loading) : Adds kind s s := ⟨[], by simp, nofun⟩

theorem trans (h : Adds kind s s') (h' : Adds kind s' s'') : Adds kind s s'' := by
  obtain ⟨more, found, all⟩ := h
  obtain ⟨more', found', all'⟩ := h'
  refine ⟨more ++ more', by rw [found', found, List.append_assoc], fun f mem => ?_⟩
  exact (List.mem_append.1 mem).elim (all f) (all' f)

theorem mono (h : Adds kind s s') (weaker : ∀ f, kind f → kind' f) : Adds kind' s s' := by
  obtain ⟨more, found, all⟩ := h
  exact ⟨more, found, fun f mem => weaker f (all f mem)⟩

theorem note (s : Loading) {f : Finding} (is : kind f) : Adds kind s (s.note f) :=
  ⟨[f], rfl, fun _ mem => List.mem_singleton.1 mem ▸ is⟩

/-- What was fatal first stays so. -/
theorem firstFatal?_eq_some (h : Adds kind s s') {error : TargetError} (first : Finding.firstFatal? s.findings = some error) :
    Finding.firstFatal? s'.findings = some error := by
  obtain ⟨more, found, -⟩ := h
  rw [found, Finding.firstFatal?, List.findSome?_append, ← Finding.firstFatal?, first, Option.some_or]

end Adds

/-- A finding is no failure. -/
def Harmless (f : Finding) : Prop := f.fatal? = none

theorem Harmless.isTrue {f : Finding} (h : Harmless f) (tree : FileTree) : f.IsTrue tree := by
  cases f with
  | noted | unresolvedImport => trivial
  | brokenImport => cases h

section Steps

variable {site : Site} {s s' : Loading} {script : Path} {e : Element}

theorem OnlyNotes.adds (h : OnlyNotes s s') : Adds Harmless s s' := by
  obtain ⟨warnings, rfl⟩ := h
  refine ⟨warnings.map .noted, rfl, fun f mem => ?_⟩
  obtain ⟨w, _, rfl⟩ := List.mem_map.1 mem
  rfl

/-- Warnings leave the first failure as it is. -/
theorem Adds.firstFatal?_eq (h : Adds Harmless s s') : Finding.firstFatal? s'.findings = Finding.firstFatal? s.findings := by
  obtain ⟨more, found, all⟩ := h
  rw [found, Finding.firstFatal?, List.findSome?_append, List.findSome?_eq_none_iff.2 all, Option.or_none]
  rfl

/-- Setting a property finds what its condition does. -/
theorem adds_applyProperty {kind : Finding → Prop} (check : ∀ s e, Adds kind s (s.check site script e).2) (s : Loading)
    (e : Element) : Adds kind s (s.applyProperty site script e) := by
  have checked := check s e
  rw [applyProperty_eq]
  split
  · exact checked
  · exact checked

theorem adds_applyProperties {kind : Finding → Prop} (check : ∀ s e, Adds kind s (s.check site script e).2) (s : Loading)
    (group : Element) : Adds kind s (s.applyProperties site script group) := by
  unfold Loading.applyProperties
  induction group.elements generalizing s with
  | nil => exact .refl s
  | cons e es ih => exact (adds_applyProperty check s e).trans (ih _)

theorem adds_declare (s : Loading) (script : Path) (e : Element) : Adds Harmless s (s.declare script e) := by
  unfold Loading.declare
  simp only
  split
  · exact .note s rfl
  · exact .refl s

/-! ## Stopping where an import fails -/

/-- The error of an element that is an import and leads nowhere. -/
def unresolved? (site : Site) (s : Loading) (script : Path) (e : Element) : Option TargetError :=
  if e.name = "Import" ∧ (s.check site script e).1 then
    match resolveImport site script (importName s.bag e) with
    | some _ => none
    | none => some (.unresolvedImport script (importName s.bag e))
  else none

/-- Works off a list of tasks, and stops at the first import that leads nowhere or to a script that cannot be read. -/
def runStrict (site : Site) (s : Loading) : List Task → Except TargetError Loading
  | [] => .ok s
  | .visit _ [] :: rest => runStrict site s rest
  | .visit script (e :: es) :: rest =>
    match unresolved? site s script e with
    | some error => .error error
    | none =>
      runStrict site (visitElement site s script e).1 ((visitElement site s script e).2 ++ .visit script es :: rest)
  | .resume script :: rest => runStrict site (s.enter script) rest
  | .load importer path :: rest =>
    if path.isOpenable ∧ s.hasTried path = false then
      match readScript site.tree path with
      | .error fault => .error (.badScript path fault)
      | .ok root =>
        runStrict site (({ s with visited := path :: s.visited, scripts := s.scripts ++ [path] } : Loading).enter path)
          (.visit path root.elements :: .resume importer :: rest)
    else runStrict site s rest
termination_by tasks => (unseen Path.openable s.visited, pendingWeight tasks, tasks.length)
decreasing_by
  · exact Prod.Lex.right _ (pending_lt_cons _ _)
  · rw [visited_visitElement]
    refine Prod.Lex.right _ (Prod.Lex.left _ _ ?_)
    have := pendingWeight_visitElement_lt site s script e
    rw [pendingWeight_append]
    simp only [pendingWeight, Task.weight, List.map_cons, total_cons] at this ⊢
    omega
  · exact Prod.Lex.right _ (pending_lt_cons _ _)
  · rename_i new
    exact Prod.Lex.left _ _ (unseen_cons_lt (Path.mem_openable new.1) (Loading.not_mem_of_hasTried new.2))
  · exact Prod.Lex.right _ (pending_lt_cons _ _)

/-- Only imports find something fatal. -/
theorem Visit.adds {tasks : List Task} (visit : Visit site s script e s' tasks)
    (other : ¬ (e.name = "Import" ∧ (s.check site script e).1 = true)) : Adds Harmless s s' := by
  cases visit with
  | pass notes => exact notes.adds
  | group =>
    have checks (s : Loading) (e : Element) : Adds Harmless s (s.check site script e).2 :=
      (onlyNotes_check site s script e).adds
    exact (checks s e).trans (adds_applyProperties checks _ e)
  | resolved named holds => exact absurd ⟨named, holds⟩ other
  | unresolved named holds => exact absurd ⟨named, holds⟩ other
  | inner notes => exact notes.adds
  | target => exact adds_declare s script e

/-- Visiting an element finds nothing fatal, unless it is an import that leads nowhere. -/
theorem unresolved?_cases (site : Site) (s : Loading) (script : Path) (e : Element) :
    (unresolved? site s script e = none ∧ Adds Harmless s (visitElement site s script e).1) ∨
      ∃ t name, unresolved? site s script e = some (.unresolvedImport script name) ∧ Adds Harmless s t ∧
        (visitElement site s script e).1 = t.note (.unresolvedImport script name) := by
  unfold unresolved?
  split
  · rename_i active
    have checked := (onlyNotes_check site s script e).adds
    rw [visitElement_import active.1 active.2]
    cases resolveImport site script (importName s.bag e) with
    | some paths => exact .inl ⟨rfl, checked⟩
    | none => exact .inr ⟨_, _, rfl, checked, rfl⟩
  · rename_i other
    exact .inl ⟨rfl, (visit_visitElement site s script e).adds other⟩

theorem adds_visitElement (site : Site) (s : Loading) (script : Path) (e : Element) :
    Adds (Finding.IsTrue site.tree) s (visitElement site s script e).1 := by
  obtain ⟨-, harmless⟩ | ⟨t, name, -, harmless, noted⟩ := unresolved?_cases site s script e
  · exact harmless.mono fun f h => h.isTrue site.tree
  · rw [noted]
    exact (harmless.mono fun f h => h.isTrue site.tree).trans (.note t trivial)

end Steps

/-- **Findings only grow**, and they are all of a kind, if what visits find and broken scripts are of that kind. -/
theorem adds_run {kind : Finding → Prop} {site : Site}
    (visit : ∀ s script e, Adds kind s (visitElement site s script e).1)
    (broken : ∀ path fault, readScript site.tree path = .error fault → kind (.brokenImport path fault))
    (s : Loading) (tasks : List Task) : Adds kind s (run site s tasks) := by
  fun_induction run site s tasks with
  | case1 s => exact .refl s
  | case2 s script rest ih => exact ih
  | case3 s script e es rest ih => exact (visit s script e).trans ih
  | case4 s script rest ih => exact ih
  | case5 s importer path rest new tried fault read ih =>
    have noted : Adds kind s (tried.note (.brokenImport path fault)) := .note tried (broken path fault read)
    exact noted.trans ih
  | case6 s importer path rest new tried root read ih => exact ih
  | case7 s importer path rest old ih => exact ih

/-- What is told of scripts is true. -/
theorem adds_run_isTrue (site : Site) (s : Loading) (tasks : List Task) :
    Adds (Finding.IsTrue site.tree) s (run site s tasks) :=
  adds_run (adds_visitElement site) (fun _ _ read => read) s tasks

/-- All that loading finds is of a kind, if the run from the entry script finds only that kind. -/
theorem forall_findings_of_load {kind : Finding → Prop} {tree : FileTree} {options : Options} {entry : Path}
    {loaded : Loaded} (loads : load tree options entry = .ok loaded)
    (adds : ∀ tasks, Adds kind (startOf options entry) (run (siteOf tree options entry) (startOf options entry) tasks)) :
    ∀ f ∈ loaded.state.findings, kind f := by
  cases read : readScript tree entry with
  | error fault =>
    rw [load_of_broken read] at loads
    cases loads
  | ok root =>
    rw [load_of_read read] at loads
    cases loads
    obtain ⟨more, found, all⟩ := adds [.visit entry root.elements]
    intro f mem
    rw [found] at mem
    exact all f mem

/-- A state, unless something in it is fatal. -/
def Loading.judged (s : Loading) : Except TargetError Loading :=
  match Finding.firstFatal? s.findings with
  | some error => .error error
  | none => .ok s

theorem Loading.judged_of_some {s : Loading} {error : TargetError} (first : Finding.firstFatal? s.findings = some error) :
    s.judged = .error error := by
  rw [judged, first]

/-- **Stopping at the first failure** is to look for it when all is done. -/
theorem runStrict_eq (site : Site) (s : Loading) (tasks : List Task) (clean : Finding.firstFatal? s.findings = none) :
    runStrict site s tasks = (run site s tasks).judged := by
  -- a failure that is noted is the first one, and stays so until the end
  have stops {t : Loading} {f : Finding} {error : TargetError} (before : Finding.firstFatal? t.findings = none)
      (fatal : f.fatal? = some error) (tasks : List Task) : (run site (t.note f) tasks).judged = .error error := by
    refine Loading.judged_of_some ((adds_run_isTrue site (t.note f) tasks).firstFatal?_eq_some ?_)
    rw [Loading.note, Finding.firstFatal?, List.findSome?_append, ← Finding.firstFatal?, before, Option.none_or,
      List.findSome?_singleton, fatal]
  fun_induction run site s tasks with
  | case1 s => rw [runStrict, Loading.judged, clean]
  | case2 s script rest ih => rw [runStrict, ih clean]
  | case3 s script e es rest ih =>
    rw [runStrict]
    obtain ⟨none, harmless⟩ | ⟨t, name, some, harmless, noted⟩ := unresolved?_cases site s script e
    · rw [none]
      exact ih (harmless.firstFatal?_eq.trans clean)
    · rw [some, noted]
      exact (stops (harmless.firstFatal?_eq.trans clean) rfl _).symm
  | case4 s script rest ih => rw [runStrict, ih clean]
  | case5 s importer path rest new tried fault read ih =>
    rw [runStrict, if_pos new, read]
    exact (stops (t := tried) clean rfl rest).symm
  | case6 s importer path rest new tried root read ih =>
    rw [runStrict, if_pos new, read]
    exact ih clean
  | case7 s importer path rest old ih => rw [runStrict, if_neg old, ih clean]

/-! ## Strict builds -/

/-- Loads the entry script and everything that it imports, unless an import fails. -/
def loadStrict (tree : FileTree) (options : Options) (entry : Path) : Except TargetError Loaded :=
  match readScript tree entry with
  | .error fault => .error (.badScript entry fault)
  | .ok root =>
    match runStrict (siteOf tree options entry) (startOf options entry) [.visit entry root.elements] with
    | .error error => .error error
    | .ok s => .ok ⟨s, root.attribute? "DefaultTargets"⟩

/-- The target tree of a script, or the error of the import that fails first. -/
def buildStrict (tree : FileTree) (options : Options) : Except TargetError TargetTree :=
  let entry := entryPath tree options
  if tree.isFile entry then
    match loadStrict tree options entry with
    | .error error => .error error
    | .ok loaded => assemble (targetSite tree entry) options entry loaded
  else .error (.notFound entry)

/-- The options with imports that must not fail, or may. -/
def Options.withStrict (options : Options) (strict : Bool) : Options := { options with strictImports := strict }

section Builds

variable (tree : FileTree) (options : Options)

theorem loadStrict_eq (entry : Path) :
    loadStrict tree options entry =
      match load tree options entry with
      | .error error => .error error
      | .ok loaded =>
        match Finding.firstFatal? loaded.state.findings with
        | some error => .error error
        | none => .ok loaded := by
  cases read : readScript tree entry with
  | error fault => rw [load_of_broken read, loadStrict, read]
  | ok root =>
    rw [load_of_read read, loadStrict, read]
    simp only [runStrict_eq (siteOf tree options entry) (startOf options entry) _ rfl, Loading.judged]
    cases Finding.firstFatal? _ <;> rfl

theorem buildTree_withStrict (strict : Bool) :
    buildTree tree (options.withStrict strict) =
      if tree.isFile (entryPath tree options) then
        match load tree options (entryPath tree options) with
        | .error error => .error error
        | .ok loaded =>
          match if strict then Finding.firstFatal? loaded.state.findings else none with
          | some error => .error error
          | none => assemble (targetSite tree (entryPath tree options)) options (entryPath tree options) loaded
      else .error (.notFound (entryPath tree options)) := rfl

/-- A strict build stops at the first import that fails. -/
theorem buildTree_withStrict_true : buildTree tree (options.withStrict true) = buildStrict tree options := by
  rw [buildTree_withStrict]
  simp only [buildStrict, loadStrict_eq, if_true]
  split
  · cases load tree options (entryPath tree options) with
    | error error => rfl
    | ok loaded =>
      dsimp only
      cases Finding.firstFatal? loaded.state.findings <;> rfl
  · rfl

end Builds

/-! ## Warnings of failed imports -/

/-- A warning tells of an import that failed, and is the given error if imports are strict. -/
inductive FailedImport (tree : FileTree) : Warning → TargetError → Prop
  /-- An import leads nowhere. -/
  | unresolved (script : Path) (name : Text) :
    FailedImport tree (.unresolvedImport script name) (.unresolvedImport script name)
  /-- An import leads to a script that cannot be read. -/
  | broken {path : Path} {fault : ScriptFault} (read : readScript tree path = .error fault) :
    FailedImport tree (.parse path fault.message) (.badScript path fault)

theorem exists_failedImport {tree : FileTree} {findings : List Finding} {error : TargetError}
    (true_ : ∀ f ∈ findings, f.IsTrue tree) (first : Finding.firstFatal? findings = some error) :
    ∃ w ∈ findings.map Finding.warning, FailedImport tree w error := by
  obtain ⟨f, mem, fatal⟩ := List.exists_of_findSome?_eq_some first
  refine ⟨f.warning, List.mem_map_of_mem mem, ?_⟩
  cases f with
  | noted => cases fatal
  | unresolvedImport script name =>
    cases fatal
    exact .unresolved script name
  | brokenImport path fault =>
    cases fatal
    exact .broken (true_ _ mem)

theorem isTrue_of_load {tree : FileTree} {options : Options} {entry : Path} {loaded : Loaded}
    (loads : load tree options entry = .ok loaded) : ∀ f ∈ loaded.state.findings, f.IsTrue tree :=
  forall_findings_of_load loads fun tasks => adds_run_isTrue (siteOf tree options entry) (startOf options entry) tasks

/-- Missing targets are put in as warnings, one after the other. -/
theorem noteMissing_eq_foldl (warnings : List Warning) (missing : List (Text × Text)) : noteMissing warnings missing =
    (missing.map fun pair => Warning.missingTarget pair.1 pair.2).foldl insertNew warnings := by
  rw [List.foldl_map]
  rfl

theorem mem_noteMissing {w : Warning} {warnings : List Warning} {missing : List (Text × Text)} :
    w ∈ noteMissing warnings missing ↔ w ∈ warnings ∨ ∃ pair ∈ missing, .missingTarget pair.1 pair.2 = w := by
  rw [noteMissing_eq_foldl, mem_foldl_insertNew, List.mem_map]

/-- What loading has found is told by the tree. -/
theorem mem_warnings_of_mem_findings {site : Site} {entry : Path} {s : Loading} {root : Target} {w : Warning}
    (mem : w ∈ s.findings.map Finding.warning) : w ∈ (treeOf site entry s root).warnings :=
  List.mem_append_left _ (mem_noteMissing.2 (.inl (List.mem_append_left _ mem)))

section Builds

variable {tree : FileTree} {options : Options} {t : TargetTree}

/-- What a lenient build gives, a strict one gives too, or it ends with a failure that the tree warns of. -/
theorem buildTree_strict_cases (lenient : buildTree tree (options.withStrict false) = .ok t) :
    buildTree tree (options.withStrict true) = .ok t ∨
      ∃ w ∈ t.warnings, ∃ error, FailedImport tree w error ∧ buildTree tree (options.withStrict true) = .error error := by
  rw [buildTree_withStrict] at lenient ⊢
  split at lenient
  · rename_i isFile
    rw [if_pos isFile]
    cases loads : load tree options (entryPath tree options) with
    | error error =>
      rw [loads] at lenient
      cases lenient
    | ok loaded =>
      rw [loads] at lenient
      simp only [if_true]
      cases first : Finding.firstFatal? loaded.state.findings with
      | none => exact .inl lenient
      | some error =>
        obtain ⟨root, rfl⟩ := exists_root_of_assemble lenient
        obtain ⟨w, mem, failed⟩ := exists_failedImport (isTrue_of_load loads) first
        exact .inr ⟨w, mem_warnings_of_mem_findings mem, error, failed, rfl⟩
  · cases lenient

/-- What a strict build gives, a lenient one gives too. -/
theorem buildTree_lenient_of_strict (strict : buildTree tree (options.withStrict true) = .ok t) :
    buildTree tree (options.withStrict false) = .ok t := by
  rw [buildTree_withStrict] at strict ⊢
  split at strict
  · rename_i isFile
    rw [if_pos isFile]
    cases loads : load tree options (entryPath tree options) with
    | error error =>
      rw [loads] at strict
      cases strict
    | ok loaded =>
      rw [loads] at strict
      simp only [if_true] at strict
      cases first : Finding.firstFatal? loaded.state.findings with
      | none =>
        rw [first] at strict
        exact strict
      | some error =>
        rw [first] at strict
        cases strict
  · cases strict

end Builds

/-- **Strict imports only reject.** A strict build ends at the first import that fails. What it gives, a lenient build
gives too; and what a lenient build gives, a strict one gives too, if the tree has no warning of a failed import. -/
theorem buildTree_strict (tree : FileTree) (options : Options) :
    buildTree tree (options.withStrict true) = buildStrict tree options ∧
      (∀ t, buildTree tree (options.withStrict true) = .ok t → buildTree tree (options.withStrict false) = .ok t) ∧
      ∀ t, buildTree tree (options.withStrict false) = .ok t → (∀ w ∈ t.warnings, ∀ error, ¬ FailedImport tree w error) →
        buildTree tree (options.withStrict true) = .ok t := by
  refine ⟨buildTree_withStrict_true tree options, fun t strict => buildTree_lenient_of_strict strict, ?_⟩
  intro t lenient passed
  obtain same | ⟨w, mem, error, failed, -⟩ := buildTree_strict_cases lenient
  · exact same
  · exact absurd failed (passed w mem error)

namespace Sample

/-- A script that imports another one, which declares a target and has one without a name. -/
def linked : FileTree :=
  ⟨.dir [("w", .dir [("a.proj", .file (Text.encode "<Project><Import Project=\"b.targets\"/></Project>")),
    ("b.targets", .file (Text.encode "<Project><Target/><Target Name=\"Build\"/></Project>"))])], ["w"]⟩

def careful : Options := ⟨⟨"a.proj"⟩, [], [], ⟨[]⟩, none, none, true, "17.0"⟩

/-- The warning for the target without a name. -/
def nameless : Warning := .parse ⟨"/w/b.targets"⟩ "line 1: <Target> without a Name"

theorem load_linked : (loadWithin 12 linked careful (entryPath linked careful)).map (fun (root, s) =>
      (noticed (targetSite linked ⟨"/w/a.proj"⟩) s,
        selectRoot [] (root.attribute? "DefaultTargets") s.bag (tableOf (targetSite linked ⟨"/w/a.proj"⟩) s),
        ((tableOf (targetSite linked ⟨"/w/a.proj"⟩) s).get? (key "Build")).isSome)) =
    some ([nameless], some ("Build".toList : Text), true) := by
  decide +kernel

/-- A lenient build passes over the target without a name, and all other warnings are about targets. -/
theorem buildTree_linked : ∃ t, buildTree linked (careful.withStrict false) = .ok t ∧ nameless ∈ t.warnings ∧
    ∀ w ∈ t.warnings, w = nameless ∨ (∃ target prerequisite, w = .missingTarget target prerequisite) ∨
      ∃ cycle, w = .targetCycle cycle := by
  obtain ⟨⟨root, s⟩, loads, computed⟩ := Option.map_eq_some_iff.1 load_linked
  simp only [Prod.mk.injEq] at computed
  obtain ⟨noted, selected, found⟩ := computed
  obtain ⟨target, found⟩ := Option.isSome_iff_exists.1 found
  obtain ⟨read, loads⟩ := load_of_loadWithin loads
  refine ⟨_, buildTree_of_load (by decide +kernel) rfl loads selected found, ?_, fun w mem => ?_⟩
  · exact List.mem_append_left _ (mem_noteMissing.2 (.inl (noted ▸ List.mem_singleton_self nameless)))
  rcases List.mem_append.1 mem with mem | mem
  · rcases mem_noteMissing.1 mem with mem | ⟨pair, _, rfl⟩
    · exact .inl (List.mem_singleton.1 (noted ▸ mem))
    · exact .inr (.inl ⟨_, _, rfl⟩)
  · unfold cycleWarning at mem
    split at mem
    · exact .inr (.inr ⟨_, List.mem_singleton.1 mem⟩)
    · cases mem

end Sample

/-- The tree of the sample has a warning about a script that can be read, so a strict build gives it too. -/
theorem buildTree_strict_linked : ∃ t, buildTree Sample.linked (Sample.careful.withStrict false) = .ok t ∧
    Sample.nameless ∈ t.warnings ∧ (∀ w ∈ t.warnings, ∀ error, ¬ FailedImport Sample.linked w error) ∧
    buildTree Sample.linked (Sample.careful.withStrict true) = .ok t := by
  obtain ⟨t, lenient, told, kinds⟩ := Sample.buildTree_linked
  have readable : (readScript Sample.linked ⟨"/w/b.targets"⟩).toOption.isSome := by decide +kernel
  have passed : ∀ w ∈ t.warnings, ∀ error, ¬ FailedImport Sample.linked w error := by
    rintro w mem error (⟨script, name⟩ | read)
    · rcases kinds _ mem with same | ⟨_, _, same⟩ | ⟨_, same⟩ <;> cases same
    · rcases kinds _ mem with same | ⟨_, _, same⟩ | ⟨_, same⟩
      · rw [← (Warning.parse.inj same).1, read] at readable
        cases readable
      · cases same
      · cases same
  exact ⟨t, lenient, told, passed, (buildTree_strict Sample.linked Sample.careful).2.2 t lenient passed⟩

end SolutionGraph.Target
