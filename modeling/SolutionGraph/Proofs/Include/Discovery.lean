import Mathlib.Logic.Relation
import SolutionGraph.Include.Growth

/-!
# What discovery should read

One file includes another when a directive of its text leads there (`Search.Includes`), and a source reaches the files that
it includes, directly or through others (`Search.Reaches`).

* **`Covers`** says of a table of files that it holds what a source reaches: each key comes once, the source is there, it
  leads to each file through files of the table, and the files that a file of the table includes have their keys in it;
* **`TellsApart`** says that keys tell the files apart that a source reaches, as they do under the sensitive policy;
* **`Covers.includes?_eq_some_iff`**: if they do, such a table holds the files that are reached and no others, so all of
  them tell the same (`Covers.includes?_eq`).
-/

namespace SolutionGraph.Include

/-- The files that a scanned file includes are those that its directives lead to. -/
theorem ScannedFile.mem_files {f : ScannedFile} {q : Path} :
    q ∈ f.files ↔ ∃ includes, f.includes = .ok includes ∧ ∃ i ∈ includes, i.resolution = .found q := by
  unfold ScannedFile.files
  split
  · rename_i includes read
    simp only [List.mem_filterMap, read, Except.ok.injEq, exists_eq_left']
    constructor
    · rintro ⟨i, mem, isFile⟩
      refine ⟨i, mem, ?_⟩
      unfold Included.file? at isFile
      split at isFile
      · rename_i found
        rw [found, Option.some.inj isFile]
      · cases isFile
    · rintro ⟨i, mem, found⟩
      exact ⟨i, mem, by rw [Included.file?, found]⟩
  · rename_i cause unread
    simp [unread]

namespace Search

variable {s : Search}

/-! ## What a directive leads to -/

theorem findFile_of_locate {name : Text} {dir p : Path} (h : s.locate name dir = some p) :
    s.tree.findFile s.policy dir name = some p := by
  unfold locate at h
  split at h
  · split at h
    · cases h
      assumption
    · cases h
  · cases h

/-- A file that a directive leads to is located from one of the directories, and then it is excluded or not. -/
theorem located_of_resolve {p q : Path} {d : Directive} (h : s.resolve p d = .found q ∨ s.resolve p d = .excluded q) :
    (∃ dir ∈ s.directoriesFor p d.style, s.locate d.name dir = some q) ∧
      s.resolve p d = if s.isExcluded q then .excluded q else .found q := by
  unfold resolve at h ⊢
  split at h
  · rcases h with h | h <;> cases h
  · simp only at h ⊢
    split at h
    · rename_i file located
      obtain ⟨dir, searched, found⟩ := List.exists_of_findSome?_eq_some located
      have same : file = q := by
        split at h <;> rcases h with h | h <;> cases h <;> rfl
      rw [same] at found ⊢
      exact ⟨⟨dir, searched, found⟩, rfl⟩
    · rcases h with h | h <;> cases h

/-! ## Files and what they include -/

/-- The includes of a file as it is on disk, or why it cannot be read. -/
def includesOf (s : Search) (file : Path) : Except DiskError (List Included) :=
  (s.readDirectives file).map (s.resolveAll file)

/-- One file includes another: a directive of its text leads there. -/
def Includes (s : Search) (p q : Path) : Prop :=
  ∃ text, s.tree.readLossy p = .ok text ∧ ∃ d ∈ scanDirectives text, s.resolve p d = .found q

/-- One file leads to another by including it, directly or through others; each leads to itself. -/
def Reaches (s : Search) : Path → Path → Prop := Relation.ReflTransGen s.Includes

/-- One file leads to another through files of a list. -/
def ReachesVia (s : Search) (files : List Path) : Path → Path → Prop :=
  Relation.ReflTransGen fun p q => p ∈ files ∧ s.Includes p q

theorem ReachesVia.mono {files more : List Path} {p q : Path} (h : s.ReachesVia files p q) (sub : files ⊆ more) :
    s.ReachesVia more p q :=
  Relation.ReflTransGen.mono (fun _ _ step => ⟨sub step.1, step.2⟩) p q h

theorem ReachesVia.reaches {files : List Path} {p q : Path} (h : s.ReachesVia files p q) : s.Reaches p q :=
  Relation.ReflTransGen.mono (fun _ _ step => step.2) p q h

/-- Keys tell the files apart that a source reaches. -/
def TellsApart (s : Search) (source : Path) : Prop :=
  ∀ p q, s.Reaches source p → s.Reaches source q → p.key s.policy = q.key s.policy → p = q

theorem tellsApart_of_sensitive (sensitive : s.policy = .sensitive) (source : Path) : s.TellsApart source := by
  intro p q _ _ same
  rw [sensitive] at same
  exact congrArg Path.mk same

theorem includesOf_eq_ok_iff {file : Path} {includes : List Included} :
    s.includesOf file = .ok includes ↔
      ∃ text, s.tree.readLossy file = .ok text ∧ includes = s.resolveAll file (scanDirectives text) := by
  unfold includesOf readDirectives
  cases s.tree.readLossy file with
  | error cause => simp [Except.map]
  | ok text => simp [Except.map, eq_comm]

theorem includesOf_eq_error_iff {file : Path} {cause : DiskError} :
    s.includesOf file = .error cause ↔ s.tree.readLossy file = .error cause := by
  unfold includesOf readDirectives
  cases s.tree.readLossy file with
  | error cause => simp [Except.map]
  | ok text => simp [Except.map]

/-- What a file includes, by its directives with where they lead. -/
theorem includes_iff {p q : Path} :
    s.Includes p q ↔ ∃ includes, s.includesOf p = .ok includes ∧ ∃ i ∈ includes, i.resolution = .found q := by
  constructor
  · rintro ⟨text, read, d, mem, found⟩
    exact ⟨_, includesOf_eq_ok_iff.2 ⟨text, read, rfl⟩, ⟨d, s.resolve p d⟩, List.mem_map.2 ⟨d, mem, rfl⟩, found⟩
  · rintro ⟨includes, h, i, mem, found⟩
    obtain ⟨text, read, rfl⟩ := includesOf_eq_ok_iff.1 h
    obtain ⟨d, hd, rfl⟩ := List.mem_map.1 mem
    exact ⟨text, read, d, hd, found⟩

/-- One step of discovery without a cache. -/
theorem discoverFrom_none_cons (s : Search) (claimed : List Path) (f : ScannedFile) (queue new : List Path)
    (read : s.includesOf f.file = f.includes) (wins : s.unclaimed claimed f.files = new) :
    (s.discoverFrom claimed none (f.file :: queue)).1 =
      f :: (s.discoverFrom (new ++ claimed) none (queue ++ new)).1 := by
  have same : (s.scan none f.file).1 = f := congrArg (ScannedFile.mk f.file) read
  subst wins
  rw [discoverFrom, ← same]
  rfl

/-! ## Tables -/

/-- A table of files that were read covers what a source includes, directly or through others. -/
structure Covers (s : Search) (source : Path) (table : List ScannedFile) : Prop where
  nodup : (table.map fun f => f.file.key s.policy).Nodup
  read : ∀ f ∈ table, f.includes = s.includesOf f.file
  source_mem : ∃ f ∈ table, f.file = source
  reached : ∀ f ∈ table, s.ReachesVia (table.map ScannedFile.file) source f.file
  closed : ∀ f ∈ table, ∀ q, s.Includes f.file q → ∃ g ∈ table, g.file.key s.policy = q.key s.policy

namespace Covers

variable {source : Path} {table : List ScannedFile}

theorem includes?_key (h : s.Covers source table) {f : ScannedFile} (hf : f ∈ table) :
    Reading.includes? ⟨s.policy, table⟩ (f.file.key s.policy) = some (s.includesOf f.file) := by
  have nodup := h.nodup
  rw [← h.read f hf]
  clear h
  unfold Reading.includes?
  induction table with
  | nil => cases hf
  | cons g rest ih =>
    rw [List.map_cons, List.nodup_cons] at nodup
    rw [List.find?_cons]
    rcases List.mem_cons.1 hf with rfl | hf
    · simp
    · have other : (g.file.key s.policy == f.file.key s.policy) = false := by
        rw [beq_eq_false_iff_ne]
        intro e
        exact nodup.1 (List.mem_map.2 ⟨f, hf, e.symm⟩)
      simpa [other] using ih hf nodup.2

theorem exists_of_includes? (h : s.Covers source table) {key : Text} {includes : Except DiskError (List Included)}
    (some : Reading.includes? ⟨s.policy, table⟩ key = some includes) :
    ∃ f ∈ table, f.file.key s.policy = key ∧ includes = s.includesOf f.file := by
  obtain ⟨f, hf, rfl⟩ := List.mem_map.1 (Reading.mem_keys_of_includes? some)
  exact ⟨f, hf, rfl, Option.some.inj (some.symm.trans (h.includes?_key hf))⟩

/-- Every file that is reached is in the table, if keys tell the files apart. -/
theorem mem_of_reaches (h : s.Covers source table) (apart : s.TellsApart source) {p : Path}
    (reach : s.Reaches source p) : ∃ f ∈ table, f.file = p := by
  induction reach with
  | refl => exact h.source_mem
  | tail before includes ih =>
    obtain ⟨f, hf, rfl⟩ := ih
    obtain ⟨g, hg, same⟩ := h.closed f hf _ includes
    exact ⟨g, hg, apart _ _ (h.reached g hg).reaches (before.tail includes) same⟩

/-- **What a covering table tells** if keys tell the files apart: the includes of the files that are reached. -/
theorem includes?_eq_some_iff (h : s.Covers source table) (apart : s.TellsApart source) {key : Text}
    {includes : Except DiskError (List Included)} :
    Reading.includes? ⟨s.policy, table⟩ key = some includes ↔
      ∃ p, s.Reaches source p ∧ p.key s.policy = key ∧ includes = s.includesOf p := by
  constructor
  · intro some
    obtain ⟨f, hf, same, read⟩ := h.exists_of_includes? some
    exact ⟨f.file, (h.reached f hf).reaches, same, read⟩
  · rintro ⟨p, reach, rfl, rfl⟩
    obtain ⟨f, hf, rfl⟩ := h.mem_of_reaches apart reach
    exact h.includes?_key hf

/-- Any two tables that cover what a source includes tell the same, if keys tell the files apart. -/
theorem includes?_eq {other : List ScannedFile} (h : s.Covers source table) (h' : s.Covers source other)
    (apart : s.TellsApart source) (key : Text) :
    Reading.includes? ⟨s.policy, table⟩ key = Reading.includes? ⟨s.policy, other⟩ key := by
  apply Option.ext
  intro includes
  rw [h.includes?_eq_some_iff apart, h'.includes?_eq_some_iff apart]

end Covers

end Search

end SolutionGraph.Include
