import SolutionGraph.Proofs.Include.Exact
import SolutionGraph.Proofs.Include.Parallel

/-!
# A cache does not show

A cache of directives is **faithful** to a disk (`DirectiveCache.Faithful`) when each entry has the directives of its file
and the path of the file is tidy, so that no other path is taken for it. A look-up, a new entry and the loss of entries
keep this, and what is found in a faithful cache is what would be read.

* **in order**: `Search.discoverFrom_cached`, and from it `Request.answer_cached`: a call gives the answer that it gives
  without a cache, and leaves the cache faithful;
* **workers**: `Search.SharedStep` has the steps of workers that share a cache, and entries may be lost at any time. They
  have the same runs as workers without one (`Search.exists_sharedRun_iff`);
* **`answers_cached`**: so any number of calls that share a cache give what they give without it.
-/

namespace SolutionGraph.Include

/-! ## Faithful caches -/

namespace DirectiveCache

/-- Each entry has the directives that are on disk, under a tidy path. -/
def Faithful (cache : DirectiveCache) (tree : FileTree) : Prop :=
  ∀ e ∈ cache.entries, e.1.path.IsTidy ∧ (tree.readLossy e.1.path).map scanDirectives = .ok e.2

variable {cache cache' : DirectiveCache} {tree : FileTree} {key : CacheKey} {ds : List Directive}

theorem faithful_empty (capacity : Nat) (tree : FileTree) : (empty capacity).Faithful tree := nofun

theorem Faithful.mono (h : cache.Faithful tree) (sub : cache'.entries ⊆ cache.entries) : cache'.Faithful tree :=
  fun e he => h e (sub he)

theorem Faithful.touch (h : cache.Faithful tree) (key : CacheKey) : (cache.touch key).Faithful tree := by
  apply h.mono
  intro e he
  simp only [DirectiveCache.touch, List.partition_eq_filter_filter, List.mem_append, List.mem_filter] at he
  exact he.elim And.left And.left

theorem Faithful.insert (h : cache.Faithful tree) (tidy : key.path.IsTidy)
    (read : (tree.readLossy key.path).map scanDirectives = .ok ds) : (cache.insert key ds).Faithful tree := by
  refine List.forall_mem_cons.2 ⟨⟨tidy, read⟩, fun e he => h e ?_⟩
  exact (List.mem_filter.1 (List.mem_of_mem_take he)).1

/-- What is found under a tidy path is what is on disk. -/
theorem Faithful.get? (h : cache.Faithful tree) (tidy : key.path.IsTidy) (known : cache.get? key = some ds) :
    (tree.readLossy key.path).map scanDirectives = .ok ds := by
  obtain ⟨e, found, rfl⟩ := Option.map_eq_some_iff.1 known
  obtain ⟨tidy', read⟩ := h e (List.mem_of_find?_eq_some found)
  -- a look-up takes paths that name the same place for one, and tidy paths do so only if they are equal
  have same : e.1.path.same key.path := by
    have equal := List.find?_some found
    exact (Bool.and_eq_true _ _ ▸ equal).1
  rw [← tidy'.eq_of_same tidy same]
  exact read

end DirectiveCache

/-! ## Calls one after the other -/

namespace Search

variable {s : Search} {cache : DirectiveCache} {file : Path}

/-- A faithful cache gives the directives that are on disk, and stays faithful. -/
theorem directives_cached (faithful : cache.Faithful s.tree) (tidy : file.IsTidy) :
    (s.directives (some cache) file).1 = s.readDirectives file ∧
      ∃ cache', (s.directives (some cache) file).2 = some cache' ∧ cache'.Faithful s.tree := by
  unfold directives
  simp only
  split
  · rename_i ds known
    exact ⟨(faithful.get? tidy known).symm, _, rfl, faithful.touch _⟩
  · split
    · rename_i ds read
      exact ⟨read.symm, _, rfl, faithful.insert tidy read⟩
    · rename_i cause unread
      exact ⟨unread.symm, _, rfl, faithful⟩

theorem scan_cached (faithful : cache.Faithful s.tree) (tidy : file.IsTidy) :
    (s.scan (some cache) file).1 = s.scanned file ∧
      ∃ cache', (s.scan (some cache) file).2 = some cache' ∧ cache'.Faithful s.tree := by
  obtain ⟨same, kept⟩ := directives_cached faithful tidy
  refine ⟨?_, kept⟩
  unfold scan scanned includesOf
  simp only [same]

theorem isTidy_of_includes {p q : Path} (h : s.Includes p q) : q.IsTidy := by
  obtain ⟨_, _, _, _, found⟩ := h
  exact (isFile_of_resolve found).2

/-- **Discovery with a faithful cache** reads the same files in the same order. -/
theorem discoverFrom_cached (claimed : List Path) {queue : List Path} (faithful : cache.Faithful s.tree)
    (tidy : ∀ p ∈ queue, p.IsTidy) :
    (s.discoverFrom claimed (some cache) queue).1 = (s.discoverFrom claimed none queue).1 ∧
      ∃ cache', (s.discoverFrom claimed (some cache) queue).2 = some cache' ∧ cache'.Faithful s.tree := by
  -- the induction follows the run without a cache, which stays without one
  generalize noCache : (none : Option DirectiveCache) = without
  fun_induction s.discoverFrom claimed without queue generalizing cache with
  | case1 claimed =>
    rw [discoverFrom]
    exact ⟨rfl, cache, rfl, faithful⟩
  | case2 claimed without file queue =>
    rename_i new later ih
    subst noCache
    obtain ⟨same, cache', kept, faithful'⟩ := scan_cached faithful (tidy file List.mem_cons_self)
    have tidy' : ∀ p ∈ queue ++ new, p.IsTidy := by
      intro p hp
      rcases List.mem_append.1 hp with hp | hp
      · exact tidy p (List.mem_cons_of_mem _ hp)
      · exact isTidy_of_includes (mem_files_scanned.1 (mem_of_mem_unclaimed hp))
    obtain ⟨rest, cached⟩ := ih faithful' tidy' rfl
    rw [discoverFrom]
    simp only [same, kept]
    exact ⟨congrArg _ rest, cached⟩

end Search

/-- A call for the include graph of a file. -/
structure Request where
  project : Project
  options : Options
  source : Path
  configuration : Text

namespace Request

variable {q : Request} {tree : FileTree} {cache : DirectiveCache}

/-- The answer to a call, and the cache after it. -/
def answer (q : Request) (tree : FileTree) (cache : Option DirectiveCache) :
    Except IncludeError Graph × Option DirectiveCache :=
  q.project.includeGraph tree q.options cache q.source q.configuration

/-- The file that the call is for. -/
def path (q : Request) : Path := q.project.listedPath q.source

/-- The search that the call starts. -/
def search (q : Request) (tree : FileTree) : Search := q.project.headerSearch tree q.options q.configuration

/-- Whether the call starts a search: the file exists and belongs to the project. -/
def isAccepted (q : Request) (tree : FileTree) : Bool :=
  tree.isFile q.path && q.project.ownsFile q.options.policy q.path

/-- The answer to a call when the table of the files that were read is given. -/
def outcome (q : Request) (tree : FileTree) (table : List ScannedFile) : Except IncludeError Graph :=
  q.project.graphOf tree q.options table q.source q.configuration

theorem isTidy_path (q : Request) : q.path.IsTidy := Path.isTidy_normalize _

theorem answer_fst (q : Request) (tree : FileTree) (cache : Option DirectiveCache) :
    (q.answer tree cache).1 = q.outcome tree ((q.search tree).discover cache q.path).1 :=
  Project.includeGraph_eq_graphOf

theorem answer_snd (q : Request) (tree : FileTree) (cache : Option DirectiveCache) :
    (q.answer tree cache).2 = if q.isAccepted tree then ((q.search tree).discover cache q.path).2 else cache := by
  unfold answer Project.includeGraph isAccepted path search Project.listedPath
  by_cases isFile : tree.isFile (Path.absolutize q.project.root q.source.text)
  · by_cases owned : q.project.ownsFile q.options.policy (Path.absolutize q.project.root q.source.text)
    · simp only [isFile, owned, Bool.not_true, Bool.false_eq_true, if_false, Bool.and_self, if_true]
      rfl
    · simp [isFile, owned]
  · simp [isFile]

/-- A call that is refused does not look at the table. -/
theorem outcome_of_not_isAccepted (refused : q.isAccepted tree = false) (table other : List ScannedFile) :
    q.outcome tree table = q.outcome tree other := by
  unfold outcome Project.graphOf
  unfold isAccepted path at refused
  cases isFile : tree.isFile (q.project.listedPath q.source)
  · rfl
  · rw [isFile, Bool.true_and] at refused
    simp only [refused, Bool.not_true, Bool.not_false, Bool.false_eq_true, if_false, if_true]

/-- **A call with a faithful cache** is answered as without one, and leaves the cache faithful. -/
theorem answer_cached (faithful : cache.Faithful tree) : (q.answer tree (some cache)).1 = (q.answer tree none).1 ∧
    ∃ cache', (q.answer tree (some cache)).2 = some cache' ∧ cache'.Faithful tree := by
  have tidy : ∀ p ∈ [q.path], p.IsTidy := List.forall_mem_singleton.2 q.isTidy_path
  have cached : cache.Faithful (q.search tree).tree := faithful
  obtain ⟨same, cache', kept, faithful'⟩ := Search.discoverFrom_cached [q.path] cached tidy
  rw [answer_fst, answer_fst, answer_snd]
  refine ⟨congrArg _ same, ?_⟩
  split
  · exact ⟨cache', kept, faithful'⟩
  · exact ⟨cache, rfl, faithful⟩

end Request

/-- The answers to calls that come one after the other and share a cache. -/
def answers (tree : FileTree) : Option DirectiveCache → List Request → List (Except IncludeError Graph)
  | _, [] => []
  | cache, q :: rest => (q.answer tree cache).1 :: answers tree (q.answer tree cache).2 rest

theorem answers_eq_map {tree : FileTree} {cache : DirectiveCache} (faithful : cache.Faithful tree)
    (requests : List Request) : answers tree (some cache) requests = requests.map fun q => (q.answer tree none).1 := by
  induction requests generalizing cache with
  | nil => rfl
  | cons q rest ih =>
    obtain ⟨same, cache', kept, faithful'⟩ := q.answer_cached faithful
    rw [answers, same, kept, ih faithful', List.map_cons]

/-! ## Workers that share a cache -/

/-- How far workers are that share a cache. -/
structure SharedDiscovery where
  /-- What they have discovered. -/
  discovery : Discovery
  /-- The cache. -/
  cache : DirectiveCache
  /-- What has been read and is not in the cache yet. -/
  pending : List (CacheKey × List Directive)

namespace Search

/-- One step of workers that share a cache. Between looking a file up and putting it into the cache, a worker may be
interrupted by others. -/
inductive SharedStep (s : Search) : SharedDiscovery → SharedDiscovery → Prop
  /-- A worker finds its file in the cache. -/
  | hit {claimed : List Text} {table : List ScannedFile} {before after : List Visit} {scans : List Path}
    {cache : DirectiveCache} {pending : List (CacheKey × List Directive)} {file : Path} {ds : List Directive}
    {f : ScannedFile} (known : cache.get? ⟨file, s.configuration⟩ = some ds)
    (found : f = ⟨file, .ok (s.resolveAll file ds)⟩) :
    SharedStep s ⟨⟨claimed, table, before ++ .waiting file :: after, scans⟩, cache, pending⟩
      ⟨⟨claimed, table, before ++ .claiming f f.files [] :: after, scans ++ [file]⟩,
        cache.touch ⟨file, s.configuration⟩, pending⟩
  /-- A worker does not find its file in the cache, and reads it. -/
  | load {claimed : List Text} {table : List ScannedFile} {before after : List Visit} {scans : List Path}
    {cache : DirectiveCache} {pending : List (CacheKey × List Directive)} {file : Path} {ds : List Directive}
    {f : ScannedFile} (unknown : cache.get? ⟨file, s.configuration⟩ = none) (read : s.readDirectives file = .ok ds)
    (found : f = ⟨file, .ok (s.resolveAll file ds)⟩) :
    SharedStep s ⟨⟨claimed, table, before ++ .waiting file :: after, scans⟩, cache, pending⟩
      ⟨⟨claimed, table, before ++ .claiming f f.files [] :: after, scans ++ [file]⟩, cache,
        (⟨file, s.configuration⟩, ds) :: pending⟩
  /-- A worker does not find its file in the cache, and cannot read it. -/
  | fail {claimed : List Text} {table : List ScannedFile} {before after : List Visit} {scans : List Path}
    {cache : DirectiveCache} {pending : List (CacheKey × List Directive)} {file : Path} {cause : DiskError}
    (unknown : cache.get? ⟨file, s.configuration⟩ = none) (unread : s.readDirectives file = .error cause) :
    SharedStep s ⟨⟨claimed, table, before ++ .waiting file :: after, scans⟩, cache, pending⟩
      ⟨⟨claimed, table, before ++ .claiming ⟨file, .error cause⟩ [] [] :: after, scans ++ [file]⟩, cache, pending⟩
  /-- A worker puts what it has read into the cache. -/
  | put {d : Discovery} {cache : DirectiveCache} {before after : List (CacheKey × List Directive)} {key : CacheKey}
    {ds : List Directive} :
    SharedStep s ⟨d, cache, before ++ (key, ds) :: after⟩ ⟨d, cache.insert key ds, before ++ after⟩
  /-- The cache loses entries. -/
  | evict {d : Discovery} {cache cache' : DirectiveCache} {pending : List (CacheKey × List Directive)}
    (sub : cache'.entries ⊆ cache.entries) : SharedStep s ⟨d, cache, pending⟩ ⟨d, cache', pending⟩
  /-- A worker does anything else, or all are through. -/
  | work {d d' : Discovery} {cache : DirectiveCache} {pending : List (CacheKey × List Directive)} (step : s.Step d d')
    (same : d'.scans = d.scans) : SharedStep s ⟨d, cache, pending⟩ ⟨d', cache, pending⟩

/-- Any number of steps of workers that share a cache. -/
def SharedRun (s : Search) : SharedDiscovery → SharedDiscovery → Prop := Relation.ReflTransGen s.SharedStep

end Search

/-- The cache is faithful, and so is what will be put into it. -/
structure SharedDiscovery.Faithful (a : SharedDiscovery) (tree : FileTree) : Prop where
  cache : a.cache.Faithful tree
  pending : ∀ e ∈ a.pending, e.1.path.IsTidy ∧ (tree.readLossy e.1.path).map scanDirectives = .ok e.2

namespace Search

variable {s : Search} {a b : SharedDiscovery} {file source : Path}

theorem scanned_eq_of_readDirectives {ds : List Directive} (read : s.readDirectives file = .ok ds) :
    s.scanned file = ⟨file, .ok (s.resolveAll file ds)⟩ := by
  rw [scanned, includesOf, read]
  rfl

theorem scanned_eq_of_unread {cause : DiskError} (unread : s.readDirectives file = .error cause) :
    s.scanned file = ⟨file, .error cause⟩ := by
  rw [scanned, includesOf, unread]
  rfl

/-- **One step with a cache** is a step without it, or none, and the cache stays faithful. -/
theorem SharedStep.step (h : s.SharedStep a b) (faithful : a.Faithful s.tree)
    (tidy : ∀ p ∈ a.discovery.paths, p.IsTidy) :
    (b.discovery = a.discovery ∨ s.Step a.discovery b.discovery) ∧ b.Faithful s.tree := by
  cases h with
  | @hit claimed table before after scans cache pending file ds f known found =>
    have isTidy : file.IsTidy := tidy file (by simp [Discovery.paths, Visit.held])
    have read : s.readDirectives file = .ok ds := faithful.cache.get? isTidy known
    rw [found, ← scanned_eq_of_readDirectives read]
    exact ⟨.inr (.scan file), faithful.cache.touch _, faithful.pending⟩
  | @load claimed table before after scans cache pending file ds f unknown read found =>
    have isTidy : file.IsTidy := tidy file (by simp [Discovery.paths, Visit.held])
    rw [found, ← scanned_eq_of_readDirectives read]
    exact ⟨.inr (.scan file), faithful.cache, List.forall_mem_cons.2 ⟨⟨isTidy, read⟩, faithful.pending⟩⟩
  | @fail claimed table before after scans cache pending file cause unknown unread =>
    have step : s.Step ⟨claimed, table, before ++ .waiting file :: after, scans⟩ _ := .scan file
    rw [scanned_eq_of_unread unread] at step
    exact ⟨.inr step, faithful.cache, faithful.pending⟩
  | @put d cache before after key ds =>
    obtain ⟨isTidy, read⟩ := faithful.pending (key, ds) (List.mem_append_right _ List.mem_cons_self)
    refine ⟨.inl rfl, faithful.cache.insert isTidy read, fun e he => faithful.pending e ?_⟩
    rw [List.mem_append] at he
    rw [List.mem_append, List.mem_cons]
    exact he.imp id .inr
  | evict sub => exact ⟨.inl rfl, faithful.cache.mono sub, faithful.pending⟩
  | work step _ => exact ⟨.inr step, faithful.cache, faithful.pending⟩

theorem Sound.isTidy {d : Discovery} (h : s.Sound source d) (tidy : source.IsTidy) : ∀ p ∈ d.paths, p.IsTidy :=
  fun p hp => (h.reached p hp).reaches.isTidy tidy

/-- Every run with a faithful cache is a run without it. -/
theorem SharedRun.run {cache : DirectiveCache} (h : s.SharedRun ⟨s.start source, cache, []⟩ b)
    (faithful : cache.Faithful s.tree) (tidy : source.IsTidy) :
    s.Run (s.start source) b.discovery ∧ b.Faithful s.tree := by
  induction h with
  | refl => exact ⟨.refl, faithful, nofun⟩
  | tail _ step ih =>
    obtain ⟨run, kept⟩ := ih
    have sound := (s.sound_start source).run run
    obtain ⟨same | next, kept'⟩ := step.step kept (sound.isTidy tidy)
    · exact ⟨same ▸ run, kept'⟩
    · exact ⟨run.tail next, kept'⟩

/-- A step without a cache can be made with one. -/
theorem exists_sharedStep {d d' : Discovery} (step : s.Step d d') {cache : DirectiveCache}
    {pending : List (CacheKey × List Directive)} (faithful : cache.Faithful s.tree) (tidy : ∀ p ∈ d.paths, p.IsTidy) :
    ∃ cache' pending', s.SharedStep ⟨d, cache, pending⟩ ⟨d', cache', pending'⟩ := by
  cases step with
  | @scan claimed table before after scans file =>
    have isTidy : file.IsTidy := tidy file (by simp [Discovery.paths, Visit.held])
    cases known : cache.get? ⟨file, s.configuration⟩ with
    | some ds =>
      have read : s.readDirectives file = .ok ds := faithful.get? isTidy known
      exact ⟨_, _, .hit known (scanned_eq_of_readDirectives read)⟩
    | none =>
      cases read : s.readDirectives file with
      | ok ds => exact ⟨_, _, .load known read (scanned_eq_of_readDirectives read)⟩
      | error cause =>
        rw [scanned_eq_of_unread read]
        exact ⟨_, _, .fail known read⟩
  | win new => exact ⟨_, _, .work (.win new) rfl⟩
  | lose old => exact ⟨_, _, .work (.lose old) rfl⟩
  | record => exact ⟨_, _, .work .record rfl⟩
  | advance => exact ⟨_, _, .work .advance rfl⟩

/-- What has been read gets into the cache in the end. -/
theorem exists_sharedRun_put (s : Search) (d : Discovery) (cache : DirectiveCache)
    (pending : List (CacheKey × List Directive)) :
    ∃ cache', s.SharedRun ⟨d, cache, pending⟩ ⟨d, cache', []⟩ := by
  induction pending generalizing cache with
  | nil => exact ⟨cache, .refl⟩
  | cons e rest ih =>
    obtain ⟨cache', run⟩ := ih (cache.insert e.1 e.2)
    have first : s.SharedStep ⟨d, cache, [] ++ (e.1, e.2) :: rest⟩ ⟨d, cache.insert e.1 e.2, [] ++ rest⟩ := .put
    exact ⟨cache', .head first run⟩

/-- **Workers that share a faithful cache come to the same** as workers without one. -/
theorem exists_sharedRun_iff {cache : DirectiveCache} {d : Discovery} (faithful : cache.Faithful s.tree)
    (tidy : source.IsTidy) :
    (∃ cache', s.SharedRun ⟨s.start source, cache, []⟩ ⟨d, cache', []⟩) ↔ s.Run (s.start source) d := by
  constructor
  · rintro ⟨cache', run⟩
    exact (run.run faithful tidy).1
  · intro run
    -- nothing is put into the cache before the end, so that each step is matched by one
    have shared : ∃ cache' pending, s.SharedRun ⟨s.start source, cache, []⟩ ⟨d, cache', pending⟩ := by
      induction run with
      | refl => exact ⟨cache, [], .refl⟩
      | tail before step ih =>
        obtain ⟨cache', pending, shared⟩ := ih
        have sound := (s.sound_start source).run before
        have kept := (shared.run faithful tidy).2
        obtain ⟨_, _, next⟩ := exists_sharedStep step kept.cache (sound.isTidy tidy)
        exact ⟨_, _, shared.tail next⟩
    obtain ⟨cache', pending, shared⟩ := shared
    obtain ⟨cache'', put⟩ := exists_sharedRun_put s d cache' pending
    exact ⟨cache'', shared.trans put⟩

end Search

/-- The answers that calls may give which come one after the other and share a cache, if each of them has workers. -/
inductive SharedAnswers (tree : FileTree) : DirectiveCache → List Request → List (Except IncludeError Graph) → Prop
  | nil {cache : DirectiveCache} : SharedAnswers tree cache [] []
  /-- A call that is refused leaves the cache alone. -/
  | refused {cache : DirectiveCache} {q : Request} {rest : List Request} {later : List (Except IncludeError Graph)}
    (refused : q.isAccepted tree = false) (others : SharedAnswers tree cache rest later) :
    SharedAnswers tree cache (q :: rest) (q.outcome tree [] :: later)
  | accepted {cache cache' : DirectiveCache} {q : Request} {rest : List Request} {d : Discovery}
    {later : List (Except IncludeError Graph)} (accepted : q.isAccepted tree = true)
    (run : (q.search tree).SharedRun ⟨(q.search tree).start q.path, cache, []⟩ ⟨d, cache', []⟩) (last : d.visits = [])
    (others : SharedAnswers tree cache' rest later) :
    SharedAnswers tree cache (q :: rest) (q.outcome tree d.table :: later)

/-- An answer that a call may give if it has workers and no cache. -/
def Request.MayAnswer (q : Request) (tree : FileTree) (answer : Except IncludeError Graph) : Prop :=
  ∃ d, (q.search tree).Run ((q.search tree).start q.path) d ∧ d.visits = [] ∧ answer = q.outcome tree d.table

/-- If names are compared as written, there is one answer. -/
theorem Request.mayAnswer_iff {q : Request} {tree : FileTree} {answer : Except IncludeError Graph}
    (sensitive : q.options.policy = .sensitive) : q.MayAnswer tree answer ↔ answer = (q.answer tree none).1 := by
  rw [answer_fst]
  constructor
  · rintro ⟨d, run, last, rfl⟩
    have sound := (Search.sound_start _ _).run run
    exact graphOf_congr sensitive (sound.covers last) (Search.discover_covers _ _)
  · rintro rfl
    obtain ⟨d, run, last, table⟩ := (q.search tree).exists_run_discover q.path
    exact ⟨d, run, last, by rw [table]⟩

theorem sharedAnswers_iff {tree : FileTree} {cache : DirectiveCache} (faithful : cache.Faithful tree)
    {requests : List Request} {given : List (Except IncludeError Graph)} :
    SharedAnswers tree cache requests given ↔
      List.Forall₂ (fun q answer => q.MayAnswer tree answer) requests given := by
  constructor
  · intro h
    induction h with
    | nil => exact .nil
    | @refused cache q rest later refused _ ih =>
      obtain ⟨d, run, last, _⟩ := (q.search tree).exists_run_discover q.path
      exact .cons ⟨d, run, last, q.outcome_of_not_isAccepted refused _ _⟩ (ih faithful)
    | @accepted cache cache' q rest d later _ run last _ ih =>
      obtain ⟨alone, kept⟩ := run.run faithful q.isTidy_path
      exact .cons ⟨d, alone, last, rfl⟩ (ih kept.cache)
  · intro h
    induction h generalizing cache with
    | nil => exact .nil
    | @cons q answer rest later here _ ih =>
      obtain ⟨d, run, last, rfl⟩ := here
      cases accepted : q.isAccepted tree with
      | false =>
        rw [q.outcome_of_not_isAccepted accepted d.table []]
        exact .refused accepted (ih faithful)
      | true =>
        obtain ⟨cache', shared⟩ := (Search.exists_sharedRun_iff faithful q.isTidy_path).2 run
        have kept := (shared.run faithful q.isTidy_path).2
        exact .accepted accepted shared last (ih kept.cache)

/-- **A cache does not show.** Calls that share a cache of any capacity, one after the other, are answered as without it.
If each of them has workers, they can be answered in the ways in which they can without it, which is one way for each call
that compares names as written; and this is so whatever entries the cache loses. -/
theorem answers_cached (tree : FileTree) (capacity : Nat) (requests : List Request) :
    answers tree (some (.empty capacity)) requests = requests.map (fun q => (q.answer tree none).1) ∧
      ∀ given, (SharedAnswers tree (.empty capacity) requests given ↔
          List.Forall₂ (fun q answer => q.MayAnswer tree answer) requests given) ∧
        ((∀ q ∈ requests, q.options.policy = .sensitive) →
          (SharedAnswers tree (.empty capacity) requests given ↔
            given = requests.map fun q => (q.answer tree none).1)) := by
  have faithful := DirectiveCache.faithful_empty capacity tree
  refine ⟨answers_eq_map faithful requests, fun given => ⟨sharedAnswers_iff faithful, fun sensitive => ?_⟩⟩
  have alone : ∀ q ∈ requests, ∀ answer, q.MayAnswer tree answer ↔ (q.answer tree none).1 = answer :=
    fun q hq answer => (Request.mayAnswer_iff (sensitive q hq)).trans eq_comm
  have expected : given = requests.map (fun q => (q.answer tree none).1) ↔
      List.Forall₂ (fun q answer => (Request.answer q tree none).1 = answer) requests given := by
    rw [← List.forall₂_map_left_iff, List.forall₂_eq_eq_eq, eq_comm]
  rw [sharedAnswers_iff faithful, expected]
  constructor
  · intro may
    exact ((List.forall₂_and_left _ _).2 ⟨alone, may⟩).imp fun q answer both => (both.1 answer).1 both.2
  · intro is
    exact ((List.forall₂_and_left _ _).2 ⟨alone, is⟩).imp fun q answer both => (both.1 answer).2 both.2

/-- Two calls for the file of the sample have the same answer, though the cache between them holds one file. -/
theorem cached_sample : ∃ g,
    answers Sample.tree (some (.empty 1)) (List.replicate 2 ⟨Sample.project, .standard, "m.c", []⟩) = [.ok g, .ok g] ∧
      SharedAnswers Sample.tree (.empty 1) (List.replicate 2 ⟨Sample.project, .standard, "m.c", []⟩) [.ok g, .ok g] := by
  obtain ⟨g, built⟩ := Sample.exists_includeGraph []
  have alone : [.ok g, .ok g] = (List.replicate 2 (⟨Sample.project, .standard, "m.c", []⟩ : Request)).map
      fun q => (q.answer Sample.tree none).1 := by
    rw [← built]
    rfl
  have sensitive : ∀ q ∈ List.replicate 2 (⟨Sample.project, .standard, "m.c", []⟩ : Request),
      q.options.policy = .sensitive := by
    intro q hq
    rw [List.eq_of_mem_replicate hq]
    rfl
  obtain ⟨inOrder, shared⟩ := answers_cached Sample.tree 1 (List.replicate 2 ⟨Sample.project, .standard, "m.c", []⟩)
  exact ⟨g, inOrder.trans alone.symm, ((shared _).2 sensitive).2 alone⟩

end SolutionGraph.Include
