import SolutionGraph.FileTree.Find
import SolutionGraph.Include.Cache
import SolutionGraph.Path.Openable
import SolutionGraph.Reach

/-!
# Searching for headers

`Search.discover` reads a source file and every header that it includes, directly or through others, and tells where each
directive leads. Files are read in breadth-first order, and each is read once: two paths are the same file when their keys
agree under the policy of the search. The search ends because there are finitely many paths that can be opened.

* **resolution**: `Search.resolve` looks in the directory of the including file, for a name in quotes, and then in the
  directories of the search rules;
* **reading**: `Search.scan` goes through the cache, if there is one;
* **discovery**: `Search.discover`.
-/

namespace SolutionGraph.Include

/-- Where a directive leads. -/
inductive Resolution where
  /-- To a file. -/
  | found (file : Path)
  /-- To a file in an excluded directory. -/
  | excluded (file : Path)
  /-- To no file in any of the directories that were searched. -/
  | missing (searched : Nat)
  /-- Nowhere that can be told from the text. -/
  | computed
  deriving DecidableEq, Repr

/-- A directive, and where it leads. -/
structure Included where
  /-- The directive. -/
  directive : Directive
  /-- Where it leads. -/
  resolution : Resolution
  deriving DecidableEq, Repr

/-- The file that is included, if one is found that is not excluded. -/
def Included.file? (i : Included) : Option Path :=
  match i.resolution with
  | .found file => some file
  | _ => none

/-- A file that was read, with its includes, or why it could not be read. -/
structure ScannedFile where
  /-- The path under which the file was read. -/
  file : Path
  /-- Its includes in the order of the text. -/
  includes : Except DiskError (List Included)

/-- The files that a file includes. -/
def ScannedFile.files (scanned : ScannedFile) : List Path :=
  match scanned.includes with
  | .ok includes => includes.filterMap Included.file?
  | .error _ => []

/-- Where and how headers are sought. -/
structure Search where
  /-- The files on disk. -/
  tree : FileTree
  /-- How names are compared. -/
  policy : CasePolicy
  /-- The directories of the search rules, in order. -/
  directories : List Path
  /-- The directories whose headers are not read. -/
  excluded : List Path
  /-- The configuration that the rules come from. -/
  configuration : Option ConfigurationName

namespace Search

/-! ## Resolution -/

/-- The file that a name stands for, seen from a directory. -/
def locate (s : Search) (name : Text) (dir : Path) : Option Path :=
  match s.tree.findFile s.policy dir name with
  | some file => if file.isOpenable then some file else none
  | none => none

/-- The directories in which a directive is sought. -/
def directoriesFor (s : Search) (including : Path) : Style → List Path
  | .quoted => including.parent?.toList ++ s.directories
  | .angled => s.directories
  | .computed => []

/-- Whether a file lies in an excluded directory. -/
def isExcluded (s : Search) (file : Path) : Bool := s.excluded.any fun dir => file.isWithin s.policy dir

/-- Where a directive of a file leads. -/
def resolve (s : Search) (including : Path) (d : Directive) : Resolution :=
  match d.style with
  | .computed => .computed
  | style =>
    let dirs := s.directoriesFor including style
    match dirs.findSome? (s.locate d.name) with
    | some file => if s.isExcluded file then .excluded file else .found file
    | none => .missing dirs.length

/-! ## Reading -/

/-- The directives of a file as it is on disk. -/
def readDirectives (s : Search) (file : Path) : Except DiskError (List Directive) :=
  (s.tree.readLossy file).map scanDirectives

/-- The directives of a file, from the cache if they are there, and the cache after that. -/
def directives (s : Search) (cache : Option DirectiveCache) (file : Path) :
    Except DiskError (List Directive) × Option DirectiveCache :=
  match cache with
  | none => (s.readDirectives file, none)
  | some cache =>
    let key : CacheKey := ⟨file, s.configuration⟩
    match cache.get? key with
    | some known => (.ok known, some (cache.touch key))
    | none =>
      match s.readDirectives file with
      | .ok found => (.ok found, some (cache.insert key found))
      | .error cause => (.error cause, some cache)

/-- Tells where each directive of a file leads. -/
def resolveAll (s : Search) (file : Path) (directives : List Directive) : List Included :=
  directives.map fun d => ⟨d, s.resolve file d⟩

/-- Reads a file, and tells where its directives lead. -/
def scan (s : Search) (cache : Option DirectiveCache) (file : Path) : ScannedFile × Option DirectiveCache :=
  let (read, cache) := s.directives cache file
  (⟨file, read.map (s.resolveAll file)⟩, cache)

/-! ## Discovery -/

/-- Whether two paths are the same file for the search. -/
def sameFile (s : Search) (a b : Path) : Bool := a.key s.policy == b.key s.policy

/-- Those of the files that nobody has claimed, each once. -/
def unclaimed (s : Search) (claimed : List Path) : List Path → List Path
  | [] => []
  | file :: rest =>
    if claimed.any (s.sameFile file) then s.unclaimed claimed rest
    else file :: s.unclaimed (file :: claimed) rest

/-! ### Why discovery ends -/

/-- A file that is located has a path that can be opened. -/
theorem isOpenable_of_locate {s : Search} {name : Text} {dir file : Path} (h : s.locate name dir = some file) :
    file.isOpenable := by
  unfold locate at h
  split at h
  · split at h
    · rename_i short
      cases h
      exact short
    · cases h
  · cases h

/-- A directive leads only to files with a path that can be opened. -/
theorem isOpenable_of_resolve {s : Search} {including file : Path} {d : Directive}
    (h : s.resolve including d = .found file) : file.isOpenable := by
  unfold resolve at h
  split at h
  · cases h
  · simp only at h
    split at h
    · rename_i located
      obtain ⟨dir, _, located⟩ := List.exists_of_findSome?_eq_some located
      split at h
      · cases h
      · cases h
        exact isOpenable_of_locate located
    · cases h

/-- A file includes only files with a path that can be opened. -/
theorem isOpenable_of_scan {s : Search} {cache : Option DirectiveCache} {file included : Path}
    (h : included ∈ (s.scan cache file).1.files) : included.isOpenable := by
  unfold scan ScannedFile.files at h
  simp only at h
  split at h
  · rename_i includes read
    obtain ⟨i, mem, isFile⟩ := List.mem_filterMap.1 h
    cases directives : (s.directives cache file).1 with
    | error cause => simp [directives, Except.map] at read
    | ok ds =>
      simp only [directives, Except.map, Except.ok.injEq] at read
      subst read
      obtain ⟨d, _, rfl⟩ := List.mem_map.1 mem
      unfold Included.file? at isFile
      split at isFile
      · rename_i found
        cases isFile
        exact isOpenable_of_resolve found
      · cases isFile
  · cases h

/-- What is unclaimed is among the files. -/
theorem mem_of_mem_unclaimed {s : Search} {claimed files : List Path} {file : Path}
    (h : file ∈ s.unclaimed claimed files) : file ∈ files := by
  induction files generalizing claimed with
  | nil => cases h
  | cons f rest ih =>
    unfold unclaimed at h
    split at h
    · exact List.mem_cons.2 (.inr (ih h))
    · exact List.mem_cons.2 ((List.mem_cons.1 h).imp id ih)

/-- What is unclaimed has not been claimed. -/
theorem not_mem_of_mem_unclaimed {s : Search} {claimed files : List Path} {file : Path}
    (h : file ∈ s.unclaimed claimed files) : file ∉ claimed := by
  induction files generalizing claimed with
  | nil => cases h
  | cons f rest ih =>
    unfold unclaimed at h
    split at h
    · exact ih h
    · rename_i new
      rcases List.mem_cons.1 h with rfl | h
      · intro mem
        exact new (List.any_eq_true.2 ⟨file, mem, by simp [sameFile]⟩)
      · exact fun mem => ih h (List.mem_cons.2 (.inr mem))

/-- Claiming new files leaves fewer that can be claimed. -/
theorem unseen_unclaimed_lt {s : Search} {claimed files : List Path} {first : Path} {rest : List Path}
    (openable : ∀ file ∈ files, file.isOpenable) (h : s.unclaimed claimed files = first :: rest) :
    unseen Path.openable ((first :: rest) ++ claimed) < unseen Path.openable claimed := by
  have mem : first ∈ s.unclaimed claimed files := by rw [h]; exact List.mem_cons.2 (.inl rfl)
  have le : unseen Path.openable (first :: (rest ++ claimed)) ≤ unseen Path.openable (first :: claimed) := by
    unfold unseen
    apply List.countP_mono_left
    intro p _ new
    simp only [List.mem_cons, List.mem_append, not_or, decide_eq_true_eq] at new ⊢
    exact ⟨new.1, new.2.2⟩
  have canOpen := Path.mem_openable (openable _ (mem_of_mem_unclaimed mem))
  exact Nat.lt_of_le_of_lt le (unseen_cons_lt canOpen (not_mem_of_mem_unclaimed mem))

/-- Reads the files of a queue and, behind them, those that they include and nobody has claimed. -/
def discoverFrom (s : Search) (claimed : List Path) (cache : Option DirectiveCache) :
    List Path → List ScannedFile × Option DirectiveCache
  | [] => ([], cache)
  | file :: queue =>
    let scanned := s.scan cache file
    let new := s.unclaimed claimed scanned.1.files
    let later := s.discoverFrom (new ++ claimed) scanned.2 (queue ++ new)
    (scanned.1 :: later.1, later.2)
termination_by queue => (unseen Path.openable claimed, queue.length)
decreasing_by
  cases h : s.unclaimed claimed (s.scan cache file).1.files with
  | nil => exact Prod.Lex.right _ (by simp)
  | cons first rest => exact Prod.Lex.left _ _ (unseen_unclaimed_lt (fun _ mem => isOpenable_of_scan mem) h)

/-- Reads a source file and all that it includes. -/
def discover (s : Search) (cache : Option DirectiveCache) (source : Path) :
    List ScannedFile × Option DirectiveCache :=
  s.discoverFrom [source] cache [source]

end Search

end SolutionGraph.Include
