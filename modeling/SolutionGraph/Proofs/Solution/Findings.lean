import Mathlib.Data.List.Basic
import SolutionGraph.Solution.Reader

/-!
# What a reading finds

A reading stops in several places if it is strict. What it finds is the same in both cases as long as it goes on, and each
thing that it finds (`Finding`) is worth a warning, and may be an error of the strict reading.

* **one stage**: a stage gives its value and tells its findings (`told`); stages one after the other tell the findings of
  all of them (`told_bind`), and a strict one ends with the first that is an error;
* **all stages**: every stage tells what it finds, so no stage goes on in another way because it is lenient
  (`Builder.checkHeader_eq`, `Builder.readEntry_eq`, `Builder.link_eq`, `Builder.keep_eq`);
* **the whole reading** (`parse_eq`) opens the file, builds the solution with all findings on the way, and settles on an
  outcome.
-/

namespace SolutionGraph.Solution

/-! ## Findings -/

/-- A reference that leads nowhere: the name of the project, and the reference as a text. -/
structure DanglingReference where
  /-- The name of the referencing project. -/
  project : Text
  /-- The id or the path of the descriptor. -/
  reference : Text
  deriving DecidableEq, Repr

/-- Something that is wrong with a solution, and can be passed over. -/
inductive Finding where
  /-- A problem of the solution file. -/
  | problem (path : Path) (found : Problem)
  /-- A header line that the dialect does not have. -/
  | foreignHeader (path : Path) (line : Nat) (dialect : Dialect)
  /-- An entry that is no project of the covered kind. -/
  | skipped (descriptor : Path) (name : Text)
  /-- A warning of a project. -/
  | noted (warning : Warning)
  /-- A descriptor that could not be read. -/
  | unreadable (descriptor : Path) (name : Text) (cause : ProjectError)
  /-- A reference that leads nowhere. -/
  | dangling (found : DanglingReference)
  /-- A root that is not in the solution. -/
  | unknownRoot (id : ProjectId)

namespace Finding

/-- The warning that a finding is worth. -/
def warning : Finding → Warning
  | .problem path found => .parse path ("line " ++ Text.ofNat found.line ++ ": " ++ found.fault.message)
  | .foreignHeader path line dialect =>
    .parse path ("line " ++ Text.ofNat line ++ ": VisualStudioVersion is not part of the " ++ dialect.text ++ " dialect")
  | .skipped descriptor name => .parse descriptor ("skipping '" ++ name ++ "': not a C++ project")
  | .noted warning => warning
  | .unreadable descriptor _ cause => .parse descriptor cause.message
  | .dangling found => .unresolvedReference found.project found.reference
  | .unknownRoot id => .unknownRoot id.text

/-- The error that a finding is in a strict reading. -/
def fatal? : Finding → Option SolutionError
  | .problem path found => some (.parse path found.line found.fault)
  | .unreadable _ name cause => some (.project name cause)
  | .dangling found => some (.unknownReference found.project found.reference)
  | .unknownRoot id => some (.unknownRoot id)
  | _ => none

/-- The first error among the findings. -/
def firstFatal? (findings : List Finding) : Option SolutionError := findings.findSome? fatal?

end Finding

/-! ## Telling what is found -/

/-- The error that findings are, if the reading is strict. -/
def stop? (strict : Bool) (findings : List Finding) : Option SolutionError :=
  if strict then Finding.firstFatal? findings else none

/-- Goes on with a value and the warnings of findings, unless one of them ends the reading. -/
def told {α : Type} (strict : Bool) (findings : List Finding) (value : α) : Reading α := fun warnings =>
  match stop? strict findings with
  | some e => .error e
  | none => .ok (value, warnings ++ findings.map Finding.warning)

section Telling

variable {α β σ : Type} {strict : Bool} {fs gs : List Finding} {f : Finding} {e : SolutionError} {a : α} {c : β}

theorem stop?_append (strict : Bool) (fs gs : List Finding) :
    stop? strict (fs ++ gs) = (stop? strict fs).or (stop? strict gs) := by
  cases strict with
  | false => rfl
  | true => exact List.findSome?_append

theorem told_nil (strict : Bool) (a : α) : told strict [] a = pure a := by
  funext warnings
  have goes : stop? strict [] = none := by cases strict <;> rfl
  rw [told, goes]
  exact congrArg (fun ws => Except.ok (a, ws)) (List.append_nil warnings)

theorem warn_eq (strict : Bool) (f : Finding) (quiet : f.fatal? = none) : warn f.warning = told strict [f] () := by
  funext warnings
  have goes : stop? strict [f] = none := by
    cases strict with
    | false => rfl
    | true => rw [stop?, if_pos rfl, Finding.firstFatal?, List.findSome?_singleton, quiet]
  rw [told, goes]
  rfl

/-- **One decision**: a finding that is an error ends a strict reading, and is a warning of a lenient one. -/
theorem Builder.reject_eq (b : Builder) (f : Finding) (fatal : f.fatal? = some e) :
    b.reject e f.warning = told b.strict [f] () := by
  funext warnings
  unfold Builder.reject
  cases b.strict with
  | false => rfl
  | true =>
    have stops : stop? true [f] = some e := by
      rw [stop?, if_pos rfl, Finding.firstFatal?, List.findSome?_singleton, fatal]
    rw [told, stops]
    rfl

/-- **One stage after the other** tells the findings of both. -/
theorem told_bind {stage : Reading α} {next : α → Reading β} (here : stage = told strict fs a)
    (behind : next a = told strict gs c) : (stage >>= next) = told strict (fs ++ gs) c := by
  subst here
  funext warnings
  have both := stop?_append strict fs gs
  cases first : stop? strict fs with
  | some e =>
    rw [first, Option.some_or] at both
    simp only [bind, StateT.bind, told, first, both, Except.bind]
  | none =>
    rw [first, Option.none_or] at both
    simp only [bind, StateT.bind, told, first, both, Except.bind, behind, List.map_append, List.append_assoc]

theorem told_bind_pure {stage : Reading α} (here : stage = told strict fs a) (next : α → β) :
    (stage >>= fun a => pure (next a)) = told strict fs (next a) := by
  have both : (stage >>= fun a => pure (next a)) = told strict (fs ++ []) (next a) :=
    told_bind here (told_nil strict (next a)).symm
  rwa [List.append_nil] at both

/-- What comes after a stage comes after its findings. -/
theorem told_then {stage : Reading α} {next : α → Reading β} {last : Reading β} (here : stage = told strict fs a)
    (behind : next a = told strict gs () >>= fun _ => last) :
    (stage >>= next) = told strict (fs ++ gs) () >>= fun _ => last := by
  have both : (told strict fs () >>= fun _ => told strict gs ()) = told strict (fs ++ gs) () := told_bind rfl rfl
  have value : stage = told strict fs () >>= fun _ => pure a := here.trans (told_bind_pure rfl fun _ => a).symm
  rw [value, bind_assoc, ← both, bind_assoc]
  simp only [pure_bind, behind]

theorem forM_eq {step : σ → Reading Unit} {found : σ → List Finding} (each : ∀ x, step x = told strict (found x) ())
    (xs : List σ) : xs.forM step = told strict (xs.flatMap found) () := by
  induction xs with
  | nil => exact (told_nil strict ()).symm
  | cons x xs ih =>
    rw [List.flatMap_cons]
    exact told_bind (each x) ih

theorem mapM_eq {step : σ → Reading β} {value : σ → β} {found : σ → List Finding}
    (each : ∀ x, step x = told strict (found x) (value x)) (xs : List σ) :
    xs.mapM step = told strict (xs.flatMap found) (xs.map value) := by
  induction xs with
  | nil => exact (told_nil strict []).symm
  | cons x xs ih =>
    rw [List.mapM_cons, List.flatMap_cons, List.map_cons]
    exact told_bind (each x) (told_bind_pure ih _)

/-- A loop tells what its steps tell, where another loop keeps the value and the findings in its state. -/
theorem foldlM_eq {step : α → β → Reading α} {next : σ → β → σ} {value : σ → α} (found : σ → List Finding)
    (each : ∀ s x, ∃ more, step (value s) x = told strict more (value (next s x)) ∧ found (next s x) = found s ++ more)
    (xs : List β) (s : σ) : ∃ more, xs.foldlM step (value s) = told strict more (value (xs.foldl next s)) ∧
      found (xs.foldl next s) = found s ++ more := by
  induction xs generalizing s with
  | nil => exact ⟨[], (told_nil strict _).symm, (List.append_nil _).symm⟩
  | cons x xs ih =>
    obtain ⟨here, first, findings⟩ := each s x
    obtain ⟨more, rest, all⟩ := ih (next s x)
    refine ⟨here ++ more, ?_, ?_⟩
    · rw [List.foldlM_cons, List.foldl_cons]
      exact told_bind first rest
    · rw [List.foldl_cons, all, findings, List.append_assoc]

/-- A loop that keeps some elements and tells the others. -/
theorem foldlM_filter_eq {known : β → Bool} {step : List β → β → Reading (List β)} (finding : β → Finding)
    (keeps : ∀ kept x, known x = true → step kept x = pure (kept ++ [x]))
    (drops : ∀ kept x, known x = false → step kept x = told strict [finding x] kept) (xs kept : List β) :
    xs.foldlM step kept = told strict ((xs.filter fun x => !known x).map finding) (kept ++ xs.filter known) := by
  induction xs generalizing kept with
  | nil => rw [List.foldlM_nil, List.filter_nil, List.filter_nil, List.map_nil, told_nil, List.append_nil]
  | cons x xs ih =>
    rw [List.foldlM_cons, List.filter_cons, List.filter_cons]
    cases keep : known x with
    | true =>
      rw [keeps kept x keep, pure_bind, ih, List.append_assoc]
      rfl
    | false => exact told_bind (drops kept x keep) (ih kept)

end Telling

/-! ## Stages -/

/-- The findings about the header. -/
def checkHeader (path : Path) (l : Listing) (dialect : Dialect) : List Finding :=
  let format := match l.formatVersion with
    | none => [Finding.problem path ⟨1, .missingHeader⟩]
    | some found =>
      if found = dialect.formatVersion then [] else [.problem path ⟨1, .formatMismatch found dialect.text⟩]
  let environment := match l.environmentLine with
    | some line => if dialect.hasEnvironmentVersion then [] else [.foreignHeader path line dialect]
    | none => []
  format ++ environment

/-- Takes in one entry, with what is found. -/
def readEntryProject (tree : FileTree) (options : Project.Options) (dir : Path) (state : Linked × List Finding)
    (e : Entry) : Linked × List Finding :=
  let (read, findings) := state
  if e.isFolder then state
  else
    let descriptor := Path.absolutize dir e.path
    if isDescriptor descriptor then
      match Project.parse tree options descriptor e.id e.name with
      | .ok parsed =>
        (read.insert e.id (withDependencies parsed.project e.dependencies, parsed.unresolvedReferencePaths),
          findings ++ parsed.warnings.map Finding.noted)
      | .error cause => (read, findings ++ [.unreadable descriptor e.name cause])
    else (read, findings ++ [.skipped descriptor e.name])

/-- Adds the project at a path to the references, or tells that there is none. -/
def resolvePath (policy : CasePolicy) (all : List Project) (state : Project × List DanglingReference) (path : Path) :
    Project × List DanglingReference :=
  let (p, dangling) := state
  match projectAt? policy all path with
  | some id => ({ p with references := insertNew p.references id }, dangling)
  | none => (p, dangling ++ [⟨p.name, path.text⟩])

/-- Adds the projects that a project references by path. -/
def resolvePaths (policy : CasePolicy) (all : List Project) (p : Project) (paths : List Path) :
    Project × List DanglingReference :=
  paths.foldl (resolvePath policy all) (p, [])

/-- Drops the references to projects that are not known. -/
def dropUnknown (known : List ProjectId) (p : Project) : Project × List DanglingReference :=
  ({ p with references := p.references.filter fun id => known.contains id },
    (p.references.filter fun id => !known.contains id).map fun id => ⟨p.name, id.text⟩)

/-- The projects with their references resolved, and the references that lead nowhere: first all paths, then all
ids. -/
def link (policy : CasePolicy) (read : Linked) : OrderedMap ProjectId Project × List DanglingReference :=
  let all := read.values.map Prod.fst
  let byPath := read.entries.map fun (id, p, paths) => (id, resolvePaths policy all p paths)
  let known := read.keys
  let byId := byPath.map fun (id, p, _) => (id, dropUnknown known p)
  (⟨byId.map fun (id, p, _) => (id, p)⟩,
    (byPath.flatMap fun (_, _, dangling) => dangling) ++ byId.flatMap fun (_, _, dangling) => dangling)

/-- The roots of the kept projects: the given ones, or else those that are built in some configuration, or else all. -/
def rootSet (l : Listing) (given : List ProjectId) (projects : OrderedMap ProjectId Project) :
    List ProjectId × List Finding :=
  if given.isEmpty then
    let built := projects.keys.filter fun id => l.built.contains id
    (if built.isEmpty then projects.keys else built, [])
  else
    (given.filter projects.contains, (given.filter fun id => !projects.contains id).map Finding.unknownRoot)

section Stages

variable {b : Builder} {tree : FileTree} {l : Listing} {dialect : Dialect} {policy : CasePolicy}

theorem Builder.problem_eq (b : Builder) (found : Problem) : b.problem found = told b.strict [.problem b.path found] () :=
  b.reject_eq (.problem b.path found) rfl

theorem Builder.checkHeader_eq (b : Builder) (l : Listing) (dialect : Dialect) :
    b.checkHeader l dialect = told b.strict (Solution.checkHeader b.path l dialect) () := by
  refine told_bind (a := ()) ?_ ?_
  · unfold Builder.checkFormat
    cases l.formatVersion with
    | none => exact b.problem_eq _
    | some found =>
      by_cases same : found = dialect.formatVersion
      · simp only [if_pos same, told_nil]
      · simp only [if_neg same, b.problem_eq]
  · unfold Builder.checkEnvironment
    cases l.environmentLine with
    | none => exact (told_nil b.strict ()).symm
    | some line =>
      cases dialect.hasEnvironmentVersion with
      | true => exact (told_nil b.strict ()).symm
      | false => exact warn_eq b.strict (.foreignHeader b.path line dialect) rfl

theorem modify_eq (strict : Bool) (warnings : List Warning) :
    (modify fun before => before ++ warnings : Reading Unit) = told strict (warnings.map .noted) () := by
  funext before
  have goes : stop? strict (warnings.map .noted) = none := by
    cases strict with
    | false => rfl
    | true => exact List.findSome?_eq_none_iff.2 fun f mem => by obtain ⟨w, -, rfl⟩ := List.mem_map.1 mem; rfl
  rw [told, goes, List.map_map]
  exact congrArg (fun ws => Except.ok ((), before ++ ws)) (List.map_id warnings).symm

/-- **Reading one entry** tells what is found. -/
theorem Builder.readEntry_eq (b : Builder) (tree : FileTree) (options : Project.Options) (dir : Path)
    (state : Linked × List Finding) (e : Entry) : ∃ more,
      b.readEntry tree options dir state.1 e = told b.strict more (readEntryProject tree options dir state e).1 ∧
      (readEntryProject tree options dir state e).2 = state.2 ++ more := by
  unfold Builder.readEntry readEntryProject
  simp only
  split
  · exact ⟨[], (told_nil _ _).symm, (List.append_nil _).symm⟩
  · split
    · cases Project.parse tree options (Path.absolutize dir e.path) e.id e.name with
      | ok parsed => exact ⟨_, told_bind_pure (modify_eq b.strict parsed.warnings) fun _ => _, rfl⟩
      | error cause =>
        have told := b.reject_eq (.unreadable (Path.absolutize dir e.path) e.name cause) rfl
        exact ⟨_, told_bind_pure told fun _ => _, rfl⟩
    · have told := warn_eq b.strict (.skipped (Path.absolutize dir e.path) e.name) rfl
      exact ⟨_, told_bind_pure told fun _ => _, rfl⟩

theorem Builder.dangling_eq (b : Builder) (project reference : Text) :
    b.dangling project reference = told b.strict [.dangling ⟨project, reference⟩] () :=
  b.reject_eq (.dangling ⟨project, reference⟩) rfl

theorem Builder.resolvePaths_eq (b : Builder) (policy : CasePolicy) (all : List Project) (p : Project) (paths : List Path) :
    paths.foldlM (b.resolvePath policy all) p =
      told b.strict ((resolvePaths policy all p paths).2.map .dangling) (resolvePaths policy all p paths).1 := by
  have each (state : Project × List DanglingReference) (path : Path) : ∃ more,
      b.resolvePath policy all state.1 path = told b.strict more (Solution.resolvePath policy all state path).1 ∧
      (Solution.resolvePath policy all state path).2.map Finding.dangling = state.2.map .dangling ++ more := by
    unfold Builder.resolvePath Solution.resolvePath
    simp only
    cases projectAt? policy all path with
    | some id => exact ⟨[], (told_nil _ _).symm, (List.append_nil _).symm⟩
    | none => exact ⟨_, told_bind_pure (b.dangling_eq state.1.name path.text) fun _ => _, List.map_append⟩
  obtain ⟨more, run, findings⟩ := foldlM_eq (fun state => state.2.map Finding.dangling) each paths (p, [])
  rw [run, resolvePaths, findings]
  rfl

theorem Builder.dropUnknown_eq (b : Builder) (known : List ProjectId) (p : Project) :
    b.dropUnknown known p =
      told b.strict ((Solution.dropUnknown known p).2.map .dangling) (Solution.dropUnknown known p).1 := by
  have keeps (kept : List ProjectId) (id : ProjectId) (isKnown : known.contains id = true) :
      b.keepKnown known p.name kept id = pure (kept ++ [id]) := if_pos isKnown
  have drops (kept : List ProjectId) (id : ProjectId) (unknown : known.contains id = false) :
      b.keepKnown known p.name kept id = told b.strict [.dangling ⟨p.name, id.text⟩] kept := by
    rw [Builder.keepKnown, unknown, if_neg Bool.false_ne_true]
    exact told_bind_pure (b.dangling_eq p.name id.text) fun _ => kept
  rw [Builder.dropUnknown, Solution.dropUnknown, List.map_map]
  exact told_bind_pure (foldlM_filter_eq _ keeps drops p.references []) fun kept => { p with references := kept }

/-- **Linking** tells the references that lead nowhere. -/
theorem Builder.link_eq (b : Builder) (policy : CasePolicy) (read : Linked) :
    b.link policy read = told b.strict ((Solution.link policy read).2.map .dangling) (Solution.link policy read).1 := by
  let resolved (e : ProjectId × Project × List Path) := resolvePaths policy (read.values.map Prod.fst) e.2.1 e.2.2
  let kept (e : ProjectId × Project) := Solution.dropUnknown read.keys e.2
  have paths : (read.entries.mapM fun (id, p, paths) => do
      return (id, ← paths.foldlM (b.resolvePath policy (read.values.map Prod.fst)) p)) =
      told b.strict (read.entries.flatMap fun e => (resolved e).2.map .dangling)
        (read.entries.map fun e => (e.1, (resolved e).1)) := by
    refine mapM_eq ?_ read.entries
    rintro ⟨id, p, paths⟩
    exact told_bind_pure (b.resolvePaths_eq policy _ p paths) fun p => (id, p)
  have ids (linked : List (ProjectId × Project)) :
      (linked.mapM fun e => do return (e.1, ← b.dropUnknown read.keys e.2)) =
      told b.strict (linked.flatMap fun e => (kept e).2.map .dangling) (linked.map fun e => (e.1, (kept e).1)) := by
    refine mapM_eq (fun e => ?_) linked
    exact told_bind_pure (b.dropUnknown_eq read.keys e.2) fun p => (e.1, p)
  refine (told_bind paths (told_bind_pure (ids _) OrderedMap.mk)).trans ?_
  rw [Solution.link]
  simp only [List.map_append, List.map_flatMap, List.flatMap_map, List.map_map]
  rfl

theorem Builder.rootSet_eq (b : Builder) (l : Listing) (given : List ProjectId) (projects : OrderedMap ProjectId Project) :
    b.rootSet l given projects =
      told b.strict (Solution.rootSet l given projects).2 (Solution.rootSet l given projects).1 := by
  have keeps (kept : List ProjectId) (id : ProjectId) (known : projects.contains id = true) :
      b.keepRoot projects kept id = pure (kept ++ [id]) := if_pos known
  have drops (kept : List ProjectId) (id : ProjectId) (unknown : projects.contains id = false) :
      b.keepRoot projects kept id = told b.strict [.unknownRoot id] kept := by
    rw [Builder.keepRoot, unknown, if_neg Bool.false_ne_true]
    exact told_bind_pure (b.reject_eq (.unknownRoot id) rfl) fun _ => kept
  unfold Builder.rootSet Solution.rootSet
  split
  · exact (told_nil b.strict _).symm
  · exact foldlM_filter_eq _ keeps drops given []

/-- **Keeping the projects that the roots reach** tells the roots that are not there. -/
theorem Builder.keep_eq (b : Builder) (options : Options) (l : Listing) (linked : OrderedMap ProjectId Project) :
    b.keep options l linked =
      told b.strict (if options.referencedOnly then (Solution.rootSet l options.roots linked).2 else [])
        (if options.referencedOnly then retainReached linked (Solution.rootSet l options.roots linked).1 else linked) := by
  unfold Builder.keep
  cases options.referencedOnly with
  | false => exact (told_nil b.strict linked).symm
  | true => exact told_bind_pure (b.rootSet_eq l options.roots linked) (retainReached linked)

end Stages

/-! ## The whole reading -/

/-- Builds the solution that a file lists, with all findings on the way. -/
def build (tree : FileTree) (options : Options) (path : Path) (dialect : Dialect) (l : Listing) :
    List Finding × Except SolutionError Solution :=
  let early := checkHeader path l dialect ++ l.problems.map (Finding.problem path)
  match duplicate? [] l.entries with
  | some e => (early, .error e)
  | none =>
    let dir := path.parent?.getD ⟨[]⟩
    let (read, ofEntries) :=
      l.entries.foldl (readEntryProject tree ⟨some dir, options.systemIncludeDirs⟩ dir) (.empty, [])
    let (linked, dangling) := link options.policy read
    let (projects, ofRoots) :=
      if options.referencedOnly then
        let (roots, unknown) := rootSet l options.roots linked
        (retainReached linked roots, unknown)
      else (linked, [])
    let projects := inheritPublicDirs projects
    let findings := early ++ ofEntries ++ dangling.map Finding.dangling ++ ofRoots
    (findings, .ok
      { path
        projects
        configurations := l.configurations
        projectConfigurations := configurationMappings l projects
        warnings := findings.map Finding.warning })

/-- The dialect and the text of the solution file. -/
def opened (tree : FileTree) (options : Options) : Except SolutionError (Dialect × Text) :=
  match Dialect.ofToolVersion? options.toolVersion with
  | none => .error (.unsupportedToolVersion options.toolVersion)
  | some dialect =>
    let path := solutionFile tree options
    if tree.isFile path then
      match tree.readText path with
      | .error cause => .error (.disk path cause)
      | .ok text => .ok (dialect, text)
    else .error (.notFound path)

/-- The outcome of a reading: the error that its findings are, if it is strict, or else what was built. -/
def settle (strict : Bool) (built : List Finding × Except SolutionError Solution) : Except SolutionError Solution :=
  match stop? strict built.1 with
  | some e => .error e
  | none => built.2

section Reading

variable {tree : FileTree} {options : Options} {path : Path} {dialect : Dialect} {l : Listing} {s : Solution}

theorem build_eq_ok_warnings (h : (build tree options path dialect l).2 = .ok s) :
    s.path = path ∧ s.warnings = (build tree options path dialect l).1.map Finding.warning := by
  unfold build at h ⊢
  simp only at h ⊢
  split at h
  · cases h
  · cases h
    exact ⟨rfl, rfl⟩

/-- **The solution is built** with the warnings of all findings, unless one of them ends the reading. -/
theorem Builder.build_eq (b : Builder) (tree : FileTree) (options : Options) (dialect : Dialect) (l : Listing) :
    b.build tree options dialect l =
      told b.strict (Solution.build tree options b.path dialect l).1 () >>= fun _ =>
        match (Solution.build tree options b.path dialect l).2 with
        | .error e => throw e
        | .ok s => do
          let warnings ← get
          return { s with warnings } := by
  have problems : l.problems.forM b.problem = told b.strict (l.problems.map (Finding.problem b.path)) () := by
    rw [List.map_eq_flatMap]
    exact forM_eq b.problem_eq l.problems
  -- after the last stage that tells something, only the result is put together
  have done {last : Reading Solution} : last = told b.strict [] () >>= fun _ => last := by
    rw [told_nil, pure_bind]
  cases unique : duplicate? [] l.entries with
  | some e =>
    have ends {rest : Unit → Reading Solution} : (checkDuplicates l >>= rest) = throw e := by
      rw [checkDuplicates, unique]
      rfl
    refine (told_then (b.checkHeader_eq l dialect) (told_then problems (ends.trans done))).trans ?_
    simp only [Solution.build, unique, List.append_nil]
  | none =>
    have goes : checkDuplicates l = told b.strict [] () := by
      rw [checkDuplicates, unique, told_nil]
    let dir := b.path.parent?.getD ⟨[]⟩
    obtain ⟨ofEntries, entries, findings⟩ :=
      foldlM_eq Prod.snd (b.readEntry_eq tree ⟨some dir, options.systemIncludeDirs⟩ dir) l.entries (OrderedMap.empty, [])
    obtain rfl := findings.trans (List.nil_append ofEntries)
    refine (told_then (b.checkHeader_eq l dialect) (told_then problems (told_then goes (told_then entries
      (told_then (b.link_eq options.policy _) (told_then (b.keep_eq options l _) done)))))).trans ?_
    simp only [Solution.build, unique, List.nil_append, List.append_nil, List.append_assoc]
    cases options.referencedOnly <;> rfl

/-- **A solution is built and settled.** -/
theorem Builder.build_settles (b : Builder) (tree : FileTree) (options : Options) (dialect : Dialect) (l : Listing) :
    (b.build tree options dialect l).run' [] = settle b.strict (Solution.build tree options b.path dialect l) := by
  have warned {s : Solution} (built : (Solution.build tree options b.path dialect l).2 = .ok s) :
      s.warnings = (Solution.build tree options b.path dialect l).1.map Finding.warning :=
    (build_eq_ok_warnings built).2
  rw [b.build_eq, settle]
  generalize Solution.build tree options b.path dialect l = built at warned ⊢
  obtain ⟨findings, result⟩ := built
  cases stops : stop? b.strict findings with
  | some e =>
    simp only [StateT.run', bind, StateT.bind, told, stops, Except.bind]
    rfl
  | none =>
    simp only [StateT.run', bind, StateT.bind, told, stops, Except.bind]
    cases result with
    | error e => rfl
    | ok s =>
      have same : s.warnings = findings.map Finding.warning := warned rfl
      obtain ⟨path, projects, configurations, projectConfigurations, warnings⟩ := s
      subst same
      rfl

/-- **A reading opens, builds and settles.** -/
theorem parse_eq (tree : FileTree) (options : Options) : parse tree options = (opened tree options).bind fun file =>
    settle options.strict (build tree options (solutionFile tree options) file.1 (Listing.read file.2)) := by
  unfold parse opened
  cases Dialect.ofToolVersion? options.toolVersion with
  | none => rfl
  | some dialect =>
    simp only
    split
    · cases tree.readText (solutionFile tree options) with
      | error cause => rfl
      | ok text => exact Builder.build_settles ⟨solutionFile tree options, options.strict⟩ tree options dialect _
    · rfl

theorem settle_eq_ok {strict : Bool} {built : List Finding × Except SolutionError Solution} :
    settle strict built = .ok s ↔ (strict → Finding.firstFatal? built.1 = none) ∧ built.2 = .ok s := by
  unfold settle stop?
  cases strict with
  | false => simp
  | true => cases fatal : Finding.firstFatal? built.1 <;> simp

theorem readText_of_opened {dialect : Dialect} {text : Text} (h : opened tree options = .ok (dialect, text)) :
    tree.readText (solutionFile tree options) = .ok text := by
  unfold opened at h
  cases version : Dialect.ofToolVersion? options.toolVersion with
  | none => simp [version] at h
  | some found =>
    simp only [version] at h
    split at h
    · cases read : tree.readText (solutionFile tree options) with
      | error cause => simp [read] at h
      | ok text' =>
        simp only [read, Except.ok.injEq, Prod.mk.injEq] at h
        rw [h.2]
    · cases h

end Reading

end SolutionGraph.Solution
