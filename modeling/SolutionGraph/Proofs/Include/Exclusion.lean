import SolutionGraph.Proofs.Include.Survey

/-!
# Excluded directories are not entered

Whether a file is excluded is decided when a directive is resolved, and by its path; the graph is made later, from what was
read. In between, nothing is read of an excluded file:

* **nodes**: no file of a graph but the source lies in an excluded directory (`Surveys.not_isExcluded`), and every leaf for
  an excluded file does (`Surveys.isExcluded`);
* **two disks**: directives lead to the same on disks that differ in the contents of files only, so a search finds the same
  on them if what it reads is the same (`findsSame_of_alike`). This is kept by every scan, so discovery in order comes to the
  same (`FindsSame.discoverFrom`), and by every step of a worker, so schedules are the same too (`FindsSame.run_iff`);
* **calls**: what is not read does not show in an answer (`Request.answer_eq`), and nothing that is read but the source lies
  in an excluded directory (`Request.not_excludes`). `excluded_not_entered` has all of this.
-/

namespace SolutionGraph.Include

/-! ## What becomes of an excluded file -/

/-- A leaf for an excluded file stands for a directive that leads there. -/
theorem Depicts.excluded {r : Reading} {source : Path} {nodes : List Node} {finished : Finished} {id : Nat} {n : Node}
    (h : Depicts r source nodes finished) (stands : nodes[id]? = some n) (kind : n.kind = .excluded) :
    n.children = [] ∧ ∃ f ∈ r.scanned, ∃ includes, f.includes = .ok includes ∧
      ∃ i ∈ includes, i.resolution = .excluded n.path := by
  have other : n.kind ≠ .source := by
    rw [kind]
    exact nofun
  obtain ⟨owner, edge⟩ := h.exists_owner stands (h.ne_zero stands other)
  obtain ⟨_, includes, i, _, _, read, mem, shows⟩ := h.shows edge
  cases shows with
  | excluded leads leaf =>
    cases stands.symm.trans leaf
    obtain ⟨f, hf, ok⟩ := Reading.exists_entry read mem
    exact ⟨rfl, f, hf, includes, ok, i, mem, leads⟩
  | back _ leaf | missing _ leaf =>
    cases stands.symm.trans leaf
    cases kind
  | file _ known =>
    cases h.settled.standsFor known with
    | unreadable _ stands' _ kind' | file _ stands' _ kind' =>
      cases stands.symm.trans stands'
      rw [kind] at kind'
      cases kind'

namespace Search

variable {s : Search} {source : Path} {table : List ScannedFile}

namespace Surveys

variable {resolved : ResolvedRules} {g : Graph} {n : Node}

/-- **No file of a graph but the source lies in an excluded directory.** -/
theorem not_isExcluded (h : s.Surveys source table) (made : Graph.ofReading ⟨s.policy, table⟩ resolved source = .ok g)
    (mem : n ∈ g.nodes) (kind : n.kind = .resolved) : s.isExcluded n.path = false := by
  rcases yields_of_mem_nodes made n mem with ⟨isSource, _⟩ | unsought | yields
  · rw [kind] at isSource
    cases isSource
  · exact absurd unsought (n.not_isUnsought (by rw [kind]; rfl))
  · obtain ⟨f, hf, leads⟩ := yields.exists_mem_files
    obtain ⟨d, found⟩ := (h.resolved f hf).exists_resolve leads
    exact not_isExcluded_of_resolve found

/-- **A leaf for an excluded file lies in an excluded directory.** -/
theorem isExcluded (h : s.Surveys source table) (made : Graph.ofReading ⟨s.policy, table⟩ resolved source = .ok g)
    (mem : n ∈ g.nodes) (kind : n.kind = .excluded) : s.isExcluded n.path = true ∧ n.children = [] := by
  obtain ⟨finished, depicts⟩ := depicts_ofReading made
  obtain ⟨id, stands⟩ := List.mem_iff_getElem?.1 mem
  obtain ⟨leaf, f, hf, includes, read, i, mem, leads⟩ := depicts.excluded stands kind
  rw [(h.resolved f hf).resolution read mem] at leads
  exact ⟨isExcluded_of_resolve leads, leaf⟩

end Surveys

/-! ## Two disks -/

/-- The search on another disk. -/
def on (s : Search) (tree : FileTree) : Search := { s with tree := tree }

/-- What has been claimed does not depend on the disk. -/
theorem unclaimed_on (s : Search) (tree : FileTree) (claimed files : List Path) :
    (s.on tree).unclaimed claimed files = s.unclaimed claimed files := by
  induction files generalizing claimed with
  | nil => rfl
  | cons file rest ih =>
    rw [unclaimed, unclaimed, ih, ih]
    rfl

/-- A search finds the same on another disk: the same files are there, every directive leads to the same, and what is read
of some of the files is the same. -/
structure FindsSame (s : Search) (reads : Path → Prop) (tree : FileTree) : Prop where
  isFile : ∀ p, tree.isFile p = s.tree.isFile p
  resolve : ∀ p d, (s.on tree).resolve p d = s.resolve p d
  read : ∀ p, reads p → (s.on tree).readDirectives p = s.readDirectives p

theorem Step.scans_subset {d d' : Discovery} (h : s.Step d d') : d.scans ⊆ d'.scans := by
  cases h with
  | scan => exact List.subset_append_left _ _
  | win | lose | record | advance => exact List.Subset.refl _

namespace FindsSame

variable {reads : Path → Prop} {tree : FileTree} {claimed queue : List Path} {cache : Option DirectiveCache} {p : Path}
  {d d' : Discovery}

theorem symm (h : s.FindsSame reads tree) : (s.on tree).FindsSame reads s.tree where
  isFile p := (h.isFile p).symm
  resolve p d := (h.resolve p d).symm
  read p mem := (h.read p mem).symm

theorem mayReach_iff (h : s.FindsSame reads tree) : (s.on tree).MayReach source p ↔ s.MayReach source p := by
  unfold MayReach
  simp only [h.resolve]

theorem resolveAll (h : s.FindsSame reads tree) : (s.on tree).resolveAll = s.resolveAll := by
  funext file directives
  simp only [Search.resolveAll, h.resolve]

theorem scan (h : s.FindsSame reads tree) (cache : Option DirectiveCache) (mem : reads p) :
    (s.on tree).scan cache p = s.scan cache p := by
  have directives : (s.on tree).directives cache p = s.directives cache p := by
    unfold Search.directives
    rw [h.read p mem]
    rfl
  simp only [Search.scan, directives, h.resolveAll]

theorem scanned (h : s.FindsSame reads tree) (mem : reads p) : (s.on tree).scanned p = s.scanned p := by
  simp only [Search.scanned, includesOf, h.read p mem, h.resolveAll]

/-- **Discovery in order** comes to the same, if all that it reads is the same. -/
theorem discoverFrom (h : s.FindsSame reads tree) (read : ∀ f ∈ (s.discoverFrom claimed cache queue).1, reads f.file) :
    (s.on tree).discoverFrom claimed cache queue = s.discoverFrom claimed cache queue := by
  fun_induction s.discoverFrom claimed cache queue with
  | case1 => rw [Search.discoverFrom]
  | case2 claimed cache file queue scanned new later ih =>
    obtain ⟨here, others⟩ := List.forall_mem_cons.1 read
    have here : reads file := here
    rw [Search.discoverFrom]
    simp only [h.scan cache here, unclaimed_on]
    rw [ih others]

/-- **A step of a worker** is one on the other disk, if all that has been read is the same. -/
theorem step (h : s.FindsSame reads tree) (step : s.Step d d') (read : ∀ p ∈ d'.scans, reads p) :
    (s.on tree).Step d d' := by
  cases step with
  | scan file =>
    have here : reads file := read file (List.mem_append_right _ List.mem_cons_self)
    rw [← h.scanned here]
    exact .scan file
  | win new => exact .win new
  | lose old => exact .lose old
  | record => exact .record
  | advance => exact .advance

theorem run (h : s.FindsSame reads tree) (run : s.Run (s.start source) d) (read : ∀ p ∈ d.scans, reads p) :
    (s.on tree).Run ((s.on tree).start source) d := by
  induction run with
  | refl => exact .refl
  | tail _ step ih => exact (ih fun p hp => read p (step.scans_subset hp)).tail (h.step step read)

theorem run_iff (h : s.FindsSame reads tree) (read : ∀ p ∈ d.scans, reads p) :
    (s.on tree).Run ((s.on tree).start source) d ↔ s.Run (s.start source) d :=
  ⟨fun run => h.symm.run run read, fun run => h.run run read⟩

end FindsSame

/-- **A search does not see what it does not read**: disks on which the contents of other files differ are the same to
it. -/
theorem findsSame_of_alike {R : List Text → List UInt8 → List UInt8 → Prop} {reads : Path → Prop} {tree : FileTree}
    (alike : s.tree.Alike R tree)
    (same : ∀ p, reads p → ∀ bytes bytes', R (s.tree.place p) bytes bytes' → bytes = bytes') :
    s.FindsSame reads tree where
  isFile p := (alike.isFile_eq p).symm
  resolve p d := by
    have locate : (s.on tree).locate d.name = s.locate d.name := by
      funext dir
      unfold Search.locate
      rw [alike.findFile_eq]
      rfl
    unfold Search.resolve
    rw [locate]
    rfl
  read p mem := by
    have bytes : tree.readBytes p = s.tree.readBytes p := by
      rcases alike.readBytes p with ⟨cause, error, error'⟩ | ⟨bytes, bytes', ok, ok', related⟩
      · rw [error, error']
      · rw [ok, ok', same p mem bytes bytes' related]
    unfold readDirectives FileTree.readLossy
    show ((do return Text.decodeLossy (← tree.readBytes p)) : Except DiskError Text).map scanDirectives = _
    rw [bytes]

end Search

/-! ## Calls -/

namespace Request

variable {q : Request} {tree tree' : FileTree} {p : Path} {reads : Path → Prop}

/-! ### What is the same on another disk -/

theorem outcome_eq (h : (q.search tree).FindsSame reads tree') (table : List ScannedFile) :
    q.outcome tree' table = q.outcome tree table := by
  have isFile : tree'.isFile (q.project.listedPath q.source) = tree.isFile (q.project.listedPath q.source) := h.isFile _
  rw [outcome, outcome, Project.graphOf, Project.graphOf, isFile]

/-- **What is not read does not show** in the answer to a call, nor in the cache after it. -/
theorem answer_eq (h : (q.search tree).FindsSame reads tree') {cache : Option DirectiveCache}
    (read : ∀ f ∈ ((q.search tree).discover cache q.path).1, reads f.file) :
    q.answer tree' cache = q.answer tree cache := by
  have discover : (q.search tree').discover cache q.path = (q.search tree).discover cache q.path := h.discoverFrom read
  have accepted : q.isAccepted tree' = q.isAccepted tree := by
    rw [isAccepted, isAccepted, h.isFile]
    rfl
  apply Prod.ext
  · rw [answer_fst, answer_fst, discover, outcome_eq h]
  · rw [answer_snd, answer_snd, discover, accepted]

/-- Two disks differ in the contents of files only, and not in those of the files at some paths. -/
def AlikeAt (paths : List Path) (tree tree' : FileTree) : Prop :=
  tree.Alike (fun place bytes bytes' => (∃ p ∈ paths, tree.place p = place) → bytes = bytes') tree'

theorem AlikeAt.findsSame {paths : List Path} (h : AlikeAt paths tree tree') (q : Request) :
    (q.search tree).FindsSame (· ∈ paths) tree' :=
  Search.findsSame_of_alike h fun p mem _ _ related => related ⟨p, mem, rfl⟩

/-! ### Files in excluded directories -/

/-- A path lies in one of the excluded directories of a call. -/
def Excludes (q : Request) (p : Path) : Prop :=
  ∃ dir ∈ q.options.excludedDirs, p.isWithin q.options.policy (Path.absolutize q.project.root dir.text)

theorem isExcluded_iff : (q.search tree).isExcluded p = true ↔ q.Excludes p := by
  unfold Search.isExcluded search Project.headerSearch Search.ofRules
  simp [Excludes, List.any_map, List.any_eq_true]

theorem not_excludes (reach : (q.search tree).MayReach q.path p) : p = q.path ∨ ¬ q.Excludes p :=
  reach.not_isExcluded.imp id fun outside excluded => Bool.eq_false_iff.1 outside (isExcluded_iff.2 excluded)

/-- Two disks differ in the contents of files in excluded directories only, and not in that of the source. -/
def AlikeOutside (q : Request) (tree tree' : FileTree) : Prop :=
  tree.Alike (fun place bytes bytes' => bytes = bytes' ∨
    ∃ p : Path, p.isAbsolute ∧ p.IsCanonical ∧ tree.place p = place ∧ q.Excludes p ∧ p ≠ q.path) tree'

theorem AlikeOutside.findsSame (h : q.AlikeOutside tree tree') (root : q.project.root.isAbsolute)
    (dirs : ∀ dir ∈ (q.search tree).directories, dir.isAbsolute) :
    (q.search tree).FindsSame ((q.search tree).MayReach q.path) tree' := by
  refine Search.findsSame_of_alike h fun p reach bytes bytes' related => related.resolve_right ?_
  rintro ⟨p', absolute', canonical', same, excluded, other⟩
  have absolute : p.isAbsolute := reach.isAbsolute dirs (Path.isAbsolute_absolutize root _)
  have canonical : p.IsCanonical := reach.isCanonical (Path.isCanonical_normalize _)
  obtain rfl : p' = p := FileTree.eq_of_place_eq absolute' canonical' absolute canonical same
  exact (not_excludes reach).resolve_left other excluded

theorem mayAnswer_iff_of_findsSame (h : (q.search tree).FindsSame ((q.search tree).MayReach q.path) tree')
    (answer : Except IncludeError Graph) : q.MayAnswer tree' answer ↔ q.MayAnswer tree answer := by
  have runs : ∀ d, (q.search tree').Run ((q.search tree').start q.path) d ↔
      (q.search tree).Run ((q.search tree).start q.path) d := by
    refine fun d => ⟨fun run => ?_, fun run => ?_⟩
    · have sound := (Search.sound_start _ _).run run
      exact (h.run_iff fun p hp => h.mayReach_iff.1 (sound.mayReach_of_mem_scans hp)).1 run
    · have sound := (Search.sound_start _ _).run run
      exact h.run run fun p hp => sound.mayReach_of_mem_scans hp
  simp only [MayAnswer, runs, outcome_eq h]

/-- A graph that is answered is made from a survey. -/
theorem exists_surveys {g : Graph}
    (answered : (∃ cache, (q.answer tree cache).1 = .ok g) ∨ q.MayAnswer tree (.ok g)) :
    ∃ table resolved, (q.search tree).Surveys q.path table ∧
      Graph.ofReading ⟨(q.search tree).policy, table⟩ resolved q.path = .ok g := by
  rcases answered with ⟨cache, built⟩ | ⟨d, run, last, built⟩
  · rw [answer_fst] at built
    exact ⟨_, _, Search.surveys_discover _ cache _, (Project.graphOf_eq_ok built).2.2⟩
  · have sound := (Search.sound_start _ _).run run
    exact ⟨_, _, (sound.covers last).surveys, (Project.graphOf_eq_ok built.symm).2.2⟩

end Request

/-- **Excluded directories are not entered**, whether files are read one after the other, with any cache, or by workers:

* no file of a graph lies in one of them, every leaf for an excluded file does, and it has no children;
* nothing is read there but the source;
* what is not read shows neither in the graph nor in its warnings, nor in how workers go on;
* so what is in the files of these directories does not show where directories are absolute, and a place has one path. -/
theorem excluded_not_entered (q : Request) (tree : FileTree) :
    (∀ g, (∃ cache, (q.answer tree cache).1 = .ok g) ∨ q.MayAnswer tree (.ok g) → ∀ n ∈ g.nodes,
        (n.kind = .resolved → ¬ q.Excludes n.path) ∧ (n.kind = .excluded → q.Excludes n.path ∧ n.children = [])) ∧
      ((∀ cache, ∀ f ∈ ((q.search tree).discover cache q.path).1, f.file = q.path ∨ ¬ q.Excludes f.file) ∧
        ∀ d, (q.search tree).Run ((q.search tree).start q.path) d → ∀ p ∈ d.scans, p = q.path ∨ ¬ q.Excludes p) ∧
      (∀ tree', (∀ cache,
          Request.AlikeAt (((q.search tree).discover cache q.path).1.map ScannedFile.file) tree tree' →
            q.answer tree' cache = q.answer tree cache) ∧
        ∀ d, Request.AlikeAt d.scans tree tree' →
          ((q.search tree').Run ((q.search tree').start q.path) d ↔
            (q.search tree).Run ((q.search tree).start q.path) d) ∧
          q.outcome tree' d.table = q.outcome tree d.table) ∧
      (q.project.root.isAbsolute → (∀ dir ∈ (q.search tree).directories, dir.isAbsolute) →
        ∀ tree', q.AlikeOutside tree tree' → (∀ cache, q.answer tree' cache = q.answer tree cache) ∧
          ∀ answer, q.MayAnswer tree' answer ↔ q.MayAnswer tree answer) := by
  refine ⟨fun g answered n mem => ?_, ⟨fun cache f hf => ?_, fun d run p hp => ?_⟩,
    fun tree' => ⟨fun cache alike => ?_, fun d alike => ⟨?_, ?_⟩⟩, fun root dirs tree' alike => ⟨fun cache => ?_, ?_⟩⟩
  · obtain ⟨table, resolved, survey, made⟩ := Request.exists_surveys answered
    refine ⟨fun kind excluded => ?_, fun kind => (survey.isExcluded made mem kind).imp Request.isExcluded_iff.1 id⟩
    exact Bool.eq_false_iff.1 (survey.not_isExcluded made mem kind) (Request.isExcluded_iff.2 excluded)
  · exact Request.not_excludes ((Search.surveys_discover _ cache _).mayReach f hf)
  · exact Request.not_excludes (((Search.sound_start _ _).run run).mayReach_of_mem_scans hp)
  · exact Request.answer_eq (alike.findsSame q) fun f hf => List.mem_map.2 ⟨f, hf, rfl⟩
  · exact (alike.findsSame q).run_iff fun _ hp => hp
  · exact Request.outcome_eq (alike.findsSame q) d.table
  · exact Request.answer_eq (alike.findsSame root dirs) (Search.surveys_discover _ cache _).mayReach
  · exact Request.mayAnswer_iff_of_findsSame (alike.findsSame root dirs)

/-- A disk with a header in a directory of its own. -/
def headerBelow (content : Text) : FileTree :=
  ⟨.dir [("w", .dir [("m.c", .file (Text.encode "#include \"gen/a.h\"")),
    ("gen", .dir [("a.h", .file (Text.encode content))])])], ["w"]⟩

/-- The call for the file beside this directory, which is excluded. -/
def excludingRequest : Request := ⟨Sample.project, ⟨.sensitive, ["gen"]⟩, "m.c", []⟩

/-- What is in the header does not show. -/
theorem excluded_not_entered_below :
    (excludingRequest.search (headerBelow "")).resolve "/w/m.c" ⟨1, "gen/a.h", .quoted⟩ = .excluded "/w/gen/a.h" ∧
      ∃ g, (excludingRequest.answer (headerBelow "") none).1 = .ok g ∧
        (excludingRequest.answer (headerBelow "#include \"b.h\"") none).1 = .ok g := by
  have excluded : ∃ p : Path, p.isAbsolute ∧ p.IsCanonical ∧ (headerBelow "").place p = ["a.h", "gen", "w"] ∧
      excludingRequest.Excludes p ∧ p ≠ excludingRequest.path :=
    ⟨"/w/gen/a.h", rfl, rfl, rfl, ⟨"gen", List.mem_cons_self, by decide⟩, by decide⟩
  have alike : excludingRequest.AlikeOutside (headerBelow "") (headerBelow "#include \"b.h\"") := by
    refine ⟨rfl, rfl, ⟨rfl, .inl rfl, rfl, ⟨rfl, .inr excluded, trivial⟩, trivial⟩, trivial⟩
  have built : ∃ g, (excludingRequest.answer (headerBelow "") none).1 = .ok g :=
    Project.exists_includeGraph_iff.2 ⟨by decide, by decide, "#include \"gen/a.h\"", rfl⟩
  obtain ⟨_, _, _, sameAnswer⟩ := excluded_not_entered excludingRequest (headerBelow "")
  obtain ⟨g, built⟩ := built
  refine ⟨by decide, g, built, ?_⟩
  rw [(sameAnswer rfl (by decide) _ alike).1 none, built]

end SolutionGraph.Include
