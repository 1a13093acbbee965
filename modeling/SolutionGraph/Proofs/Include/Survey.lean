import Mathlib.Data.List.Flatten
import Mathlib.Data.List.Perm.Subperm
import SolutionGraph.Proofs.FileTree.Lookup
import SolutionGraph.Proofs.Include.Cache

/-!
# What a search reads, and when it is through

From an absolute directory a directive leads to one of finitely many paths, however its name is written: each file of the
disk has one that is absolute and canonical (`MayReach.mem_filePaths`).

* **`Surveys`** says what is true of the table of every search, also of one that reads from a cache that is out of date
  (`surveys_discover`, `Covers.surveys`): each key comes once, the source is there, and what an entry leads to has an entry.
  So a graph that is made from it never lacks the includes of a file (`Surveys.exists_read`);
* **`RunsFor`** counts the steps of workers. A step takes work away, but for what is claimed by it (`Sound.work_step`), and
  a file is claimed once; so there are no more steps than the files of the disk take in all (`RunsFor.le_total`);
* **`discovery_complete`** has both.
-/

namespace SolutionGraph.Include

namespace Reading

variable {r : Reading}

theorem exists_includes? {f : ScannedFile} (hf : f ∈ r.scanned) :
    ∃ read, r.includes? (f.file.key r.policy) = some read := by
  have some : (r.scanned.find? fun g => g.file.key r.policy == f.file.key r.policy).isSome :=
    List.find?_isSome.2 ⟨f, hf, beq_self_eq_true _⟩
  obtain ⟨g, found⟩ := Option.isSome_iff_exists.1 some
  exact ⟨g.includes, by rw [includes?, found, Option.map_some]⟩

/-- A directive of a file is one of an entry. -/
theorem exists_entry {key : Text} {includes : List Included} {i : Included} (read : r.contents key = .ok includes)
    (mem : i ∈ includes) : ∃ f ∈ r.scanned, f.includes = .ok includes := by
  obtain ⟨f, entry, ok⟩ := Option.map_eq_some_iff.1 (includes?_of_contents read mem)
  exact ⟨f, List.mem_of_find?_eq_some entry, ok⟩

theorem Yields.exists_mem_files {q : Path} (h : r.Yields q) : ∃ f ∈ r.scanned, q ∈ f.files := by
  obtain ⟨key, includes, read, i, mem, found⟩ := h
  obtain ⟨f, hf, ok⟩ := exists_entry read mem
  exact ⟨f, hf, ScannedFile.mem_files.2 ⟨includes, ok, i, mem, found⟩⟩

end Reading

/-- At any moment, what has been read is in the table or held by a worker. -/
theorem Discovery.readPaths_sublist (d : Discovery) : d.readPaths.Sublist d.paths := by
  refine (List.Sublist.refl _).append (List.Sublist.flatMap_right d.visits fun v _ => ?_)
  cases v with
  | waiting | through => exact List.nil_sublist _
  | claiming => exact List.Sublist.cons_cons _ (List.nil_sublist _)

namespace Search

variable {s : Search} {source p q : Path}

/-! ## Where directives may lead -/

theorem isExcluded_of_resolve {d : Directive} (h : s.resolve p d = .excluded q) : s.isExcluded q = true := by
  have leads := (located_of_resolve (.inr h)).2
  rw [h] at leads
  split at leads
  · assumption
  · cases leads

theorem not_isExcluded_of_resolve {d : Directive} (h : s.resolve p d = .found q) : s.isExcluded q = false := by
  have leads := (located_of_resolve (.inl h)).2
  rw [h] at leads
  split at leads
  · cases leads
  · exact Bool.eq_false_iff.2 ‹_›

/-- One file may lead to another: some directives would lead there, one after the other, whatever the files say. -/
def MayReach (s : Search) : Path → Path → Prop := Relation.ReflTransGen fun p q => ∃ d, s.resolve p d = .found q

theorem Reaches.mayReach (h : s.Reaches p q) : s.MayReach p q :=
  Relation.ReflTransGen.mono (fun _ _ ⟨_, _, d, _, found⟩ => ⟨d, found⟩) p q h

namespace MayReach

/-- Nothing but the source lies in an excluded directory. -/
theorem not_isExcluded (h : s.MayReach source p) : p = source ∨ s.isExcluded p = false := by
  cases h with
  | refl => exact .inl rfl
  | tail _ step =>
    obtain ⟨d, found⟩ := step
    exact .inr (not_isExcluded_of_resolve found)

theorem isFile (h : s.MayReach source p) (file : s.tree.isFile source) : s.tree.isFile p := by
  cases h with
  | refl => exact file
  | tail _ step =>
    obtain ⟨d, found⟩ := step
    exact (isFile_of_resolve found).1

theorem isCanonical (h : s.MayReach source p) (canonical : source.IsCanonical) : p.IsCanonical := by
  cases h with
  | refl => exact canonical
  | tail _ step =>
    obtain ⟨d, found⟩ := step
    obtain ⟨⟨dir, _, located⟩, _⟩ := located_of_resolve (.inl found)
    exact FileTree.isCanonical_of_findFile (findFile_of_locate located)

theorem isAbsolute (h : s.MayReach source p) (dirs : ∀ dir ∈ s.directories, dir.isAbsolute)
    (absolute : source.isAbsolute) : p.isAbsolute := by
  induction h with
  | refl => exact absolute
  | @tail including file _ step ih =>
    obtain ⟨d, found⟩ := step
    obtain ⟨⟨dir, searched, located⟩, _⟩ := located_of_resolve (.inl found)
    refine FileTree.isAbsolute_of_findFile ?_ (findFile_of_locate located)
    unfold directoriesFor at searched
    split at searched
    · rcases List.mem_append.1 searched with own | listed
      · exact Path.isAbsolute_parent? ih (Option.mem_toList.1 own)
      · exact dirs dir listed
    · exact dirs dir searched
    · cases searched

/-- **There are finitely many files to lead to**, if all directories are absolute. -/
theorem mem_filePaths (h : s.MayReach source p) (dirs : ∀ dir ∈ s.directories, dir.isAbsolute)
    (absolute : source.isAbsolute) (canonical : source.IsCanonical) (file : s.tree.isFile source) :
    p ∈ s.tree.filePaths :=
  FileTree.mem_filePaths (h.isFile file) (h.isAbsolute dirs absolute) (h.isCanonical canonical)

end MayReach

/-! ## Surveys -/

/-- What was read of a file leads where its directives do, whatever these are. -/
def IsResolved (s : Search) (f : ScannedFile) : Prop :=
  ∃ directives : Except DiskError (List Directive), f.includes = directives.map (s.resolveAll f.file)

theorem IsResolved.resolution {f : ScannedFile} (h : s.IsResolved f) {includes : List Included}
    (read : f.includes = .ok includes) {i : Included} (mem : i ∈ includes) :
    i.resolution = s.resolve f.file i.directive := by
  obtain ⟨directives, resolved⟩ := h
  rw [read] at resolved
  cases directives with
  | error => cases resolved
  | ok ds =>
    cases resolved
    obtain ⟨d, _, rfl⟩ := List.mem_map.1 mem
    rfl

theorem IsResolved.exists_resolve {f : ScannedFile} (h : s.IsResolved f) (hq : q ∈ f.files) :
    ∃ d, s.resolve f.file d = .found q := by
  obtain ⟨includes, read, i, mem, found⟩ := ScannedFile.mem_files.1 hq
  exact ⟨i.directive, (h.resolution read mem).symm.trans found⟩

/-- A table is what a search from a source leaves, whatever the files and the cache say. -/
structure Surveys (s : Search) (source : Path) (table : List ScannedFile) : Prop where
  nodup : (table.map fun f => f.file.key s.policy).Nodup
  resolved : ∀ f ∈ table, s.IsResolved f
  source_mem : ∃ f ∈ table, f.file = source
  mayReach : ∀ f ∈ table, s.MayReach source f.file
  closed : ∀ f ∈ table, ∀ q ∈ f.files, ∃ g ∈ table, g.file.key s.policy = q.key s.policy

theorem Covers.surveys {table : List ScannedFile} (h : s.Covers source table) : s.Surveys source table where
  nodup := h.nodup
  resolved f hf := ⟨s.readDirectives f.file, h.read f hf⟩
  source_mem := h.source_mem
  mayReach f hf := (h.reached f hf).reaches.mayReach
  closed f hf q hq := by
    rw [ScannedFile.mem_files, h.read f hf] at hq
    exact h.closed f hf q (includes_iff.2 hq)

/-! ### Reading in order, with any cache -/

section InOrder

variable {claimed queue files : List Path} {cache : Option DirectiveCache}

theorem nodup_unclaimed (nodup : (claimed.map (Path.key s.policy)).Nodup) (files : List Path) :
    ((s.unclaimed claimed files ++ claimed).map (Path.key s.policy)).Nodup := by
  induction files generalizing claimed with
  | nil => exact nodup
  | cons file rest ih =>
    rw [unclaimed]
    split
    · exact ih nodup
    · rename_i new
      rw [any_sameFile_iff] at new
      -- the file has been claimed when the rest is looked at
      have nodup' : ((file :: claimed).map (Path.key s.policy)).Nodup := List.nodup_cons.2 ⟨new, nodup⟩
      exact (List.perm_middle.map _).nodup_iff.1 (ih nodup')

/-- What is not among the new files was claimed before. -/
theorem mem_keys_of_mem (h : q ∈ files) :
    q.key s.policy ∈ (s.unclaimed claimed files ++ claimed).map (Path.key s.policy) := by
  induction files generalizing claimed with
  | nil => cases h
  | cons file rest ih =>
    rw [unclaimed]
    split
    · rename_i old
      rw [any_sameFile_iff] at old
      rcases List.mem_cons.1 h with rfl | h
      · rw [List.map_append]
        exact List.mem_append_right _ old
      · exact ih h
    · rcases List.mem_cons.1 h with rfl | h
      · exact List.mem_cons_self
      · have later : q.key s.policy ∈ (s.unclaimed (file :: claimed) rest ++ file :: claimed).map (Path.key s.policy) :=
          ih h
        exact (List.perm_middle.map _).mem_iff.1 later

/-- Discovery goes on from a queue, with `more` behind it that had not been claimed. -/
structure GoesOn (s : Search) (claimed queue : List Path) (table : List ScannedFile) (more : List Path) : Prop where
  files : table.map ScannedFile.file = queue ++ more
  nodup : ((more ++ claimed).map (Path.key s.policy)).Nodup
  closed : ∀ f ∈ table, ∀ q ∈ f.files, q.key s.policy ∈ (more ++ claimed).map (Path.key s.policy)

theorem exists_goesOn (nodup : (claimed.map (Path.key s.policy)).Nodup) (cache : Option DirectiveCache)
    (queue : List Path) : ∃ more, s.GoesOn claimed queue (s.discoverFrom claimed cache queue).1 more := by
  fun_induction s.discoverFrom claimed cache queue with
  | case1 claimed cache => exact ⟨[], rfl, nodup, fun _ hf => absurd hf List.not_mem_nil⟩
  | case2 claimed cache file queue scanned new later ih =>
    obtain ⟨more, files, nodup', closed⟩ := ih (nodup_unclaimed nodup _)
    -- what is new to this file was claimed for the files after it
    have order : (more ++ (new ++ claimed)).Perm (new ++ more ++ claimed) :=
      (List.perm_append_comm_assoc more new claimed).trans (.of_eq (List.append_assoc new more claimed).symm)
    refine ⟨new ++ more, ?_, (order.map _).nodup_iff.1 nodup', List.forall_mem_cons.2 ⟨fun q hq => ?_, ?_⟩⟩
    · rw [List.map_cons, files, List.append_assoc]
      rfl
    · have known : q.key s.policy ∈ (new ++ claimed).map (Path.key s.policy) := mem_keys_of_mem hq
      rw [List.map_append] at known ⊢
      rw [List.map_append, List.append_assoc]
      rcases List.mem_append.1 known with isNew | old
      · exact List.mem_append_left _ isNew
      · exact List.mem_append_right _ (List.mem_append_right _ old)
    · exact fun f hf q hq => (order.map _).mem_iff.1 (closed f hf q hq)

theorem isResolved_scan (s : Search) (cache : Option DirectiveCache) (file : Path) :
    s.IsResolved (s.scan cache file).1 := ⟨(s.directives cache file).1, rfl⟩

/-- What is read leads on to files that may be reached. -/
theorem mayReach_queue {file : Path} (reached : ∀ p ∈ file :: queue, s.MayReach source p) :
    ∀ p ∈ queue ++ s.unclaimed claimed (s.scan cache file).1.files, s.MayReach source p := by
  obtain ⟨here, others⟩ := List.forall_mem_cons.1 reached
  refine List.forall_mem_append.2 ⟨others, fun q hq => ?_⟩
  exact here.tail ((s.isResolved_scan cache file).exists_resolve (mem_of_mem_unclaimed hq))

theorem isResolved_of_mem (cache : Option DirectiveCache) (reached : ∀ p ∈ queue, s.MayReach source p) :
    ∀ f ∈ (s.discoverFrom claimed cache queue).1, s.IsResolved f ∧ s.MayReach source f.file := by
  fun_induction s.discoverFrom claimed cache queue with
  | case1 => exact fun _ hf => absurd hf List.not_mem_nil
  | case2 claimed cache file queue scanned new later ih =>
    have here := reached file List.mem_cons_self
    exact List.forall_mem_cons.2 ⟨⟨s.isResolved_scan cache file, here⟩, ih (mayReach_queue reached)⟩

/-- **Discovery in order leaves a survey**, whatever is in the cache. -/
theorem surveys_discover (s : Search) (cache : Option DirectiveCache) (source : Path) :
    s.Surveys source (s.discover cache source).1 := by
  have nodup : ([source].map (Path.key s.policy)).Nodup := List.nodup_singleton _
  obtain ⟨more, files, nodup, closed⟩ := exists_goesOn nodup cache [source]
  have reached : ∀ p ∈ [source], s.MayReach source p := List.forall_mem_singleton.2 .refl
  have resolved : ∀ f ∈ (s.discover cache source).1, s.IsResolved f ∧ s.MayReach source f.file :=
    isResolved_of_mem cache reached
  -- the source is the only file that was claimed before
  have order : (more ++ [source]).Perm ((s.discover cache source).1.map ScannedFile.file) :=
    (List.perm_append_singleton source more).trans (.of_eq files.symm)
  have keys := order.map (Path.key s.policy)
  rw [List.map_map] at keys
  refine ⟨keys.nodup_iff.1 nodup, fun f hf => (resolved f hf).1, ?_, fun f hf => (resolved f hf).2, fun f hf q hq => ?_⟩
  · exact List.mem_map.1 (files ▸ List.mem_cons_self)
  · exact List.mem_map.1 (keys.mem_iff.1 (closed f hf q hq))

end InOrder

/-! ### Graphs of surveys -/

namespace Surveys

variable {table : List ScannedFile}

/-- **A graph never lacks the includes of a file.** -/
theorem exists_read (h : s.Surveys source table) {resolved : ResolvedRules} {g : Graph}
    (made : Graph.ofReading ⟨s.policy, table⟩ resolved source = .ok g) {n : Node} (mem : n ∈ g.nodes)
    (kind : n.kind.isFile) :
    ∃ includes, Reading.includes? ⟨s.policy, table⟩ (n.path.key s.policy) = some (.ok includes) := by
  have entry : ∃ f ∈ table, f.file.key s.policy = n.path.key s.policy := by
    rcases yields_of_mem_nodes made n mem with ⟨_, path⟩ | unsought | yields
    · obtain ⟨f, hf, e⟩ := h.source_mem
      exact ⟨f, hf, by rw [e, path]⟩
    · exact absurd unsought (n.not_isUnsought kind)
    · obtain ⟨f, hf, leads⟩ := yields.exists_mem_files
      exact h.closed f hf _ leads
  obtain ⟨f, hf, same⟩ := entry
  obtain ⟨read, known⟩ := Reading.exists_includes? (r := ⟨s.policy, table⟩) hf
  rw [same] at known
  obtain ⟨finished, depicts⟩ := depicts_ofReading made
  obtain ⟨id, stands⟩ := List.mem_iff_getElem?.1 mem
  obtain ⟨includes, contents, _⟩ := depicts.children stands kind
  rw [Reading.contents, known, Option.getD_some] at contents
  exact ⟨includes, contents ▸ known⟩

end Surveys

/-! ## Counting steps -/

/-- A run of so many steps. -/
inductive RunsFor (s : Search) (d : Discovery) : Nat → Discovery → Prop
  | none : RunsFor s d 0 d
  | step {n : Nat} {d' d'' : Discovery} (before : RunsFor s d n d') (last : s.Step d' d'') : RunsFor s d (n + 1) d''

variable {d d' : Discovery} {n : Nat}

theorem RunsFor.run (h : s.RunsFor d n d') : s.Run d d' := by
  induction h with
  | none => exact .refl
  | step _ last ih => exact ih.tail last

theorem total_perm {ns ms : List Nat} (h : ns.Perm ms) : total ns = total ms := by
  induction h with
  | nil => rfl
  | cons n _ ih => rw [total_cons, total_cons, ih]
  | swap n m rest =>
    simp only [total_cons]
    omega
  | trans _ _ ih ih' => exact ih.trans ih'

theorem total_le_of_sublist {ns ms : List Nat} (h : ns.Sublist ms) : total ns ≤ total ms := by
  induction h with
  | slnil => exact Nat.le_refl _
  | cons m _ ih =>
    rw [total_cons]
    omega
  | cons_cons n _ ih =>
    rw [total_cons, total_cons]
    omega

theorem total_map_le_of_subperm {ps qs : List Path} (h : ps.Subperm qs) (f : Path → Nat) :
    total (ps.map f) ≤ total (qs.map f) := by
  obtain ⟨rs, perm, sub⟩ := h
  rw [← total_perm (perm.map f)]
  exact total_le_of_sublist (sub.map f)

/-- What the files take that have been claimed. -/
def claimedLoad (s : Search) (d : Discovery) : Nat := total (d.paths.map s.load)

theorem claimedLoad_eq (s : Search) (extra : List Path) (h : d'.paths.Perm (extra ++ d.paths)) :
    s.claimedLoad d' = total (extra.map s.load) + s.claimedLoad d := by
  rw [claimedLoad, total_perm (h.map s.load), List.map_append, total_append, claimedLoad]

theorem work_eq (s : Search) (claimed : List Text) (table : List ScannedFile) (before : List Visit) (v : Visit)
    (after : List Visit) (scans : List Path) : s.work ⟨claimed, table, before ++ v :: after, scans⟩ =
      total (before.map s.visitWork) + (s.visitWork v + total (after.map s.visitWork)) := by
  rw [work, List.map_append, total_append, List.map_cons, total_cons]

/-- A step of one worker that takes work away from the worker, but for what is claimed by it. -/
theorem work_visit_step {claimed claimed' : List Text} {table : List ScannedFile} {before after : List Visit}
    {scans scans' : List Path} {v v' : Visit} (extra : List Path) (held : v'.held.Perm (extra ++ v.held))
    (less : s.visitWork v' + 1 ≤ s.visitWork v + total (extra.map s.load)) :
    s.work ⟨claimed', table, before ++ v' :: after, scans'⟩ + 1 +
        s.claimedLoad ⟨claimed, table, before ++ v :: after, scans⟩ ≤
      s.work ⟨claimed, table, before ++ v :: after, scans⟩ +
        s.claimedLoad ⟨claimed', table, before ++ v' :: after, scans'⟩ := by
  have load : s.claimedLoad ⟨claimed', table, before ++ v' :: after, scans'⟩ =
      total (extra.map s.load) + s.claimedLoad ⟨claimed, table, before ++ v :: after, scans⟩ :=
    s.claimedLoad_eq extra (paths_perm extra v v' held)
  rw [work_eq, work_eq]
  omega

/-- **Every step takes work away**, but for what the files take that it claims. -/
theorem Sound.work_step (h : s.Sound source d) (step : s.Step d d') :
    s.work d' + 1 + s.claimedLoad d ≤ s.work d + s.claimedLoad d' := by
  cases step with
  | scan file =>
    refine work_visit_step [] (.refl [file]) ?_
    rw [visitWork, visitWork, load]
    simp
  | @win _ _ _ _ _ file p left won new =>
    refine work_visit_step [p] (List.perm_append_singleton p (file.file :: won)) ?_
    simp only [visitWork, List.map_append, total_append, List.length_cons]
    omega
  | @lose _ _ _ _ _ file _ _ won old =>
    refine work_visit_step [] (.refl (file.file :: won)) ?_
    simp only [visitWork, List.length_cons, List.map_nil, total_nil]
    omega
  | record =>
    have load := s.claimedLoad_eq [] h.paths_record
    rw [List.map_nil, total_nil] at load
    rw [load, work_eq, work_eq, visitWork, visitWork, List.length_nil]
    omega
  | @advance claimed table scans won more =>
    have less := s.work_advance_lt claimed table won more scans
    rw [claimedLoad, claimedLoad, paths_advance]
    omega

/-- What is left to do, and the steps that were made, are what the claimed files take. -/
theorem RunsFor.add_work_le (h : s.RunsFor (s.start source) n d) : n + s.work d ≤ s.claimedLoad d := by
  induction h with
  | none => simp [work, start, visitWork, claimedLoad, Discovery.paths, Visit.held]
  | step before last ih =>
    have := ((s.sound_start source).run before.run).work_step last
    omega

/-! ## The files of the disk -/

section Disk

variable (dirs : ∀ dir ∈ s.directories, dir.isAbsolute) (absolute : source.isAbsolute)
  (canonical : source.IsCanonical) (file : s.tree.isFile source)

include dirs absolute canonical file

theorem Sound.mem_filePaths (h : s.Sound source d) (hp : p ∈ d.paths) : p ∈ s.tree.filePaths :=
  (h.reached p hp).reaches.mayReach.mem_filePaths dirs absolute canonical file

/-- **There are no more steps than the files of the disk take in all.** -/
theorem RunsFor.le_total (h : s.RunsFor (s.start source) n d) : n ≤ total (s.tree.filePaths.map s.load) := by
  have sound := (s.sound_start source).run h.run
  have nodup : d.paths.Nodup := (sound.claimed_perm.nodup_iff.2 sound.nodup).of_map
  have onDisk : d.paths ⊆ s.tree.filePaths := fun p hp => sound.mem_filePaths dirs absolute canonical file hp
  calc n ≤ s.claimedLoad d := Nat.le_trans (Nat.le_add_right n _) h.add_work_le
    _ ≤ total (s.tree.filePaths.map s.load) := total_map_le_of_subperm (List.subperm_of_subset nodup onDisk) s.load

end Disk

theorem Sound.mem_paths (h : s.Sound source d) (hp : p ∈ d.scans) : p ∈ d.paths :=
  d.readPaths_sublist.subset (h.scans_perm.mem_iff.1 hp)

theorem Sound.mayReach_of_mem_scans (h : s.Sound source d) (hp : p ∈ d.scans) : s.MayReach source p :=
  (h.reached p (h.mem_paths hp)).reaches.mayReach

theorem Sound.nodup_scans (h : s.Sound source d) : (d.scans.map (Path.key s.policy)).Nodup := by
  have paths := h.claimed_perm.nodup_iff.2 h.nodup
  exact (h.scans_perm.map _).nodup_iff.2 (paths.sublist (d.readPaths_sublist.map _))

/-! ## Complete tables -/

/-- A table lacks nothing that is needed to make a graph of a source. -/
structure IsComplete (s : Search) (source : Path) (table : List ScannedFile) : Prop where
  /-- Each key has one entry. -/
  once : (table.map fun f => f.file.key s.policy).Nodup
  /-- Every entry is a file of the disk. -/
  onDisk : ∀ f ∈ table, f.file ∈ s.tree.filePaths
  /-- The source has an entry. -/
  source_mem : ∃ f ∈ table, f.file = source
  /-- So has every file that an include of an entry leads to. -/
  closed : ∀ f ∈ table, ∀ includes, f.includes = .ok includes → ∀ i ∈ includes, ∀ q, i.resolution = .found q →
    ∃ g ∈ table, g.file.key s.policy = q.key s.policy
  /-- For no file of a graph, its includes are missing. -/
  read : ∀ resolved g, Graph.ofReading ⟨s.policy, table⟩ resolved source = .ok g → ∀ n ∈ g.nodes, n.kind.isFile →
    ∃ includes, Reading.includes? ⟨s.policy, table⟩ (n.path.key s.policy) = some (.ok includes)

theorem Surveys.isComplete {table : List ScannedFile} (h : s.Surveys source table)
    (dirs : ∀ dir ∈ s.directories, dir.isAbsolute) (absolute : source.isAbsolute) (canonical : source.IsCanonical)
    (file : s.tree.isFile source) : s.IsComplete source table where
  once := h.nodup
  onDisk f hf := (h.mayReach f hf).mem_filePaths dirs absolute canonical file
  source_mem := h.source_mem
  closed f hf includes read i mem q found := h.closed f hf q (ScannedFile.mem_files.2 ⟨includes, read, i, mem, found⟩)
  read _ _ made _ mem kind := h.exists_read made mem kind

end Search

/-- **Discovery ends with a complete table**, if the directory of the project and those of its rules are absolute and the
source exists. Files may be read one after the other, with any cache, or by workers. Then there are no more steps than the
files of the disk take in all, no key is read twice, nothing is read but files of the disk, and as long as the table is
not complete there is another step. -/
theorem discovery_complete {q : Request} {tree : FileTree} (root : q.project.root.isAbsolute)
    (dirs : ∀ dir ∈ (q.search tree).directories, dir.isAbsolute) (file : tree.isFile q.path) :
    (∀ cache, (q.search tree).IsComplete q.path ((q.search tree).discover cache q.path).1) ∧
      ∀ n d, (q.search tree).RunsFor ((q.search tree).start q.path) n d →
        n ≤ total (tree.filePaths.map (q.search tree).load) ∧
          (d.scans.map (Path.key q.options.policy)).Nodup ∧ d.scans ⊆ tree.filePaths ∧
          ((∃ d', (q.search tree).Step d d') ∨ d.visits = [] ∧ (q.search tree).IsComplete q.path d.table) := by
  have absolute : q.path.isAbsolute := Path.isAbsolute_absolutize root _
  have canonical : q.path.IsCanonical := Path.isCanonical_normalize _
  refine ⟨fun cache => ?_, fun n d run => ⟨run.le_total dirs absolute canonical file, ?_⟩⟩
  · exact (Search.surveys_discover _ cache _).isComplete dirs absolute canonical file
  · have sound := (Search.sound_start _ _).run run.run
    refine ⟨sound.nodup_scans, fun p hp => ?_, ?_⟩
    · exact sound.mem_filePaths dirs absolute canonical file (sound.mem_paths hp)
    · by_cases last : d.visits = []
      · exact .inr ⟨last, (sound.covers last).surveys.isComplete dirs absolute canonical file⟩
      · exact .inl ((q.search tree).exists_step last)

/-- The call for the file of the sample. -/
def sampleRequest : Request := ⟨Sample.project, .standard, "m.c", []⟩

/-- Workers make no more than eight steps for the sample. -/
theorem discovery_complete_sample : sampleRequest.project.root.isAbsolute ∧
    (∀ dir ∈ (sampleRequest.search Sample.tree).directories, dir.isAbsolute) ∧
    Sample.tree.isFile sampleRequest.path ∧
    ∀ n d, (sampleRequest.search Sample.tree).RunsFor ((sampleRequest.search Sample.tree).start sampleRequest.path) n d →
      n ≤ 8 := by
  have root : sampleRequest.project.root.isAbsolute := rfl
  have dirs : ∀ dir ∈ (sampleRequest.search Sample.tree).directories, dir.isAbsolute := by decide
  have file : Sample.tree.isFile sampleRequest.path := by decide
  have order : Text.le ['m', '.', 'c'] ['a', '.', 'h'] = false := by decide
  have files : Sample.tree.filePaths = [Path.ofNames ["w", "a.h"], Path.ofNames ["w", "m.c"]] := by
    simp [FileTree.filePaths, Sample.tree, FileNode.descendants, FileNode.descendEntries, FileNode.sortedEntries,
      List.mergeSort, order, FileNode.isDir]
  have takes : total (Sample.tree.filePaths.map (sampleRequest.search Sample.tree).load) = 8 := by
    rw [files]
    decide +kernel
  refine ⟨root, dirs, file, fun n d run => ?_⟩
  have bound := ((discovery_complete root dirs file).2 n d run).1
  rwa [takes] at bound

end SolutionGraph.Include
