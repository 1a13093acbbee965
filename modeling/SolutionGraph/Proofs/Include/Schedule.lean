import Mathlib.Data.List.Perm.Basic
import SolutionGraph.Proofs.Include.Discovery

/-!
# Discovery by several workers

The files of a frontier may be read by workers at the same time. A worker reads its file, claims the files that are
included there one after the other, and puts the file into the table; each of these is one step, and the steps of
different workers come in any order (`Search.Step`). When all of them are through, what they have won is the next
frontier.

* **`Sound`**: the keys that have been claimed are those of the files in the table and of those that workers hold, each
  once, and what a file of the table includes has been claimed. Every step keeps this (`Sound.step`), so every run does
  (`Sound.run`);
* **`Sound.acc`**: no schedule goes on forever. A step that claims a key leaves fewer paths that can be claimed, and every
  other step leaves less to do on the frontier (`Search.work`);
* **`exists_step`**: workers are never stuck;
* **`Sound.covers`**: whatever the schedule was, the table covers what the source includes in the end, and every file of
  the table was read once (`Sound.scans_perm_table`);
* **`exists_run_discover`**: to read one file after the other is one of the schedules, so `Search.discover` covers what the
  source includes (`discover_covers`).
-/

namespace SolutionGraph.Include

/-- How far the worker of a file is. -/
inductive Visit where
  /-- The file has not been read. -/
  | waiting (file : Path)
  /-- The file has been read; of the files that it includes, some are left to be claimed, and some have been won. -/
  | claiming (file : ScannedFile) (left won : List Path)
  /-- The file is in the table. -/
  | through (won : List Path)

/-- How far discovery is. -/
structure Discovery where
  /-- The keys that have been claimed. -/
  claimed : List Text
  /-- The files that have been put into the table. -/
  table : List ScannedFile
  /-- The frontier, with how far the worker of each file is. -/
  visits : List Visit
  /-- The files that have been read, in the order of reading. -/
  scans : List Path

namespace Visit

/-- The files that a worker holds: its own until it is in the table, and those that it has won. -/
def held : Visit → List Path
  | .waiting file => [file]
  | .claiming file _ won => file.file :: won
  | .through won => won

/-- The file that a worker has read and not put into the table. -/
def reading : Visit → List Path
  | .claiming file _ _ => [file.file]
  | _ => []

end Visit

namespace Discovery

/-- The files that are in the table or held by workers. -/
def paths (d : Discovery) : List Path := d.table.map ScannedFile.file ++ d.visits.flatMap Visit.held

/-- The files of the table and those that workers have read. -/
def readPaths (d : Discovery) : List Path := d.table.map ScannedFile.file ++ d.visits.flatMap Visit.reading

end Discovery

namespace Search

variable {s : Search} {source : Path} {d d' : Discovery}

/-- What is read of a file. -/
def scanned (s : Search) (file : Path) : ScannedFile := ⟨file, s.includesOf file⟩

theorem mem_files_scanned {p q : Path} : q ∈ (s.scanned p).files ↔ s.Includes p q := by
  rw [ScannedFile.mem_files, includes_iff, scanned]

/-- Puts a file into a table, unless its key is there. -/
def record (s : Search) (table : List ScannedFile) (f : ScannedFile) : List ScannedFile :=
  if table.any fun g => s.sameFile g.file f.file then table else table ++ [f]

/-- One step of one worker, or from one frontier to the next. -/
inductive Step (s : Search) : Discovery → Discovery → Prop
  /-- A worker reads its file. -/
  | scan {claimed : List Text} {table : List ScannedFile} {before after : List Visit} {scans : List Path} (file : Path) :
    Step s ⟨claimed, table, before ++ .waiting file :: after, scans⟩
      ⟨claimed, table, before ++ .claiming (s.scanned file) (s.scanned file).files [] :: after, scans ++ [file]⟩
  /-- A worker claims a key that is new. -/
  | win {claimed : List Text} {table : List ScannedFile} {before after : List Visit} {scans : List Path}
    {file : ScannedFile} {p : Path} {left won : List Path} (new : p.key s.policy ∉ claimed) :
    Step s ⟨claimed, table, before ++ .claiming file (p :: left) won :: after, scans⟩
      ⟨p.key s.policy :: claimed, table, before ++ .claiming file left (won ++ [p]) :: after, scans⟩
  /-- A worker finds that a key has been claimed. -/
  | lose {claimed : List Text} {table : List ScannedFile} {before after : List Visit} {scans : List Path}
    {file : ScannedFile} {p : Path} {left won : List Path} (old : p.key s.policy ∈ claimed) :
    Step s ⟨claimed, table, before ++ .claiming file (p :: left) won :: after, scans⟩
      ⟨claimed, table, before ++ .claiming file left won :: after, scans⟩
  /-- A worker puts its file into the table. -/
  | record {claimed : List Text} {table : List ScannedFile} {before after : List Visit} {scans : List Path}
    {file : ScannedFile} {won : List Path} :
    Step s ⟨claimed, table, before ++ .claiming file [] won :: after, scans⟩
      ⟨claimed, s.record table file, before ++ .through won :: after, scans⟩
  /-- All workers are through: what they have won is the next frontier. -/
  | advance {claimed : List Text} {table : List ScannedFile} {scans won : List Path} {more : List (List Path)} :
    Step s ⟨claimed, table, .through won :: more.map .through, scans⟩
      ⟨claimed, table, (won ++ more.flatten).map .waiting, scans⟩

/-- Any number of steps, in any order of the workers. -/
def Run (s : Search) : Discovery → Discovery → Prop := Relation.ReflTransGen s.Step

/-- Discovery starts with one worker, who holds the source. -/
def start (s : Search) (source : Path) : Discovery := ⟨[source.key s.policy], [], [.waiting source], []⟩

/-! ## What every step keeps -/

/-- A worker has read what is on disk, and what its file includes is left to be claimed or has been claimed. -/
def VisitSound (s : Search) (claimed : List Text) : Visit → Prop
  | .claiming file left _ => file = s.scanned file.file ∧ (∀ q ∈ left, s.Includes file.file q) ∧
      ∀ q, s.Includes file.file q → q ∈ left ∨ q.key s.policy ∈ claimed
  | _ => True

/-- The state of discovery from a source is sound. -/
structure Sound (s : Search) (source : Path) (d : Discovery) : Prop where
  nodup : d.claimed.Nodup
  claimed_perm : (d.paths.map (Path.key s.policy)).Perm d.claimed
  scans_perm : d.scans.Perm d.readPaths
  source_mem : source ∈ d.paths
  reached : ∀ p ∈ d.paths, s.ReachesVia d.paths source p
  read : ∀ f ∈ d.table, f = s.scanned f.file
  closed : ∀ f ∈ d.table, ∀ q, s.Includes f.file q → q.key s.policy ∈ d.claimed
  visits : ∀ v ∈ d.visits, s.VisitSound d.claimed v

theorem sound_start (s : Search) (source : Path) : s.Sound source (s.start source) := by
  refine ⟨by simp [start], by simp [start, Discovery.paths, Visit.held], ?_, by simp [start, Discovery.paths, Visit.held],
    ?_, by simp [start], by simp [start], by simp [start, VisitSound]⟩
  · simp [start, Discovery.readPaths, Visit.reading]
  · intro p hp
    simp only [start, Discovery.paths, Visit.held, List.map_nil, List.nil_append, List.flatMap_cons, List.flatMap_nil,
      List.append_nil, List.mem_singleton] at hp
    rw [hp]
    exact .refl

theorem VisitSound.mono {claimed more : List Text} {v : Visit} (h : s.VisitSound claimed v) (sub : claimed ⊆ more) :
    s.VisitSound more v := by
  cases v with
  | claiming file left won => exact ⟨h.1, h.2.1, fun q hq => (h.2.2 q hq).imp_right fun mem => sub mem⟩
  | waiting | through => trivial

theorem record_of_fresh {table : List ScannedFile} {f : ScannedFile}
    (fresh : f.file.key s.policy ∉ (table.map ScannedFile.file).map (Path.key s.policy)) :
    s.record table f = table ++ [f] := by
  rw [record, if_neg]
  intro old
  obtain ⟨g, hg, same⟩ := List.any_eq_true.1 old
  exact fresh (List.mem_map.2 ⟨g.file, List.mem_map.2 ⟨g, hg, rfl⟩, by simpa [sameFile] using same⟩)

section Steps

variable {claimed : List Text} {table : List ScannedFile} {before after : List Visit} {scans : List Path}
  {file : ScannedFile} {p : Path} {left won : List Path}

/-- The files after a step of one worker, by what the worker holds after it. -/
theorem paths_perm {claimed' : List Text} {scans' : List Path} (extra : List Path) (v v' : Visit)
    (held : v'.held.Perm (extra ++ v.held)) :
    (Discovery.paths ⟨claimed', table, before ++ v' :: after, scans'⟩).Perm
      (extra ++ Discovery.paths ⟨claimed, table, before ++ v :: after, scans⟩) := by
  simp only [List.perm_iff_count, List.count_append] at held
  simp only [List.perm_iff_count, Discovery.paths, List.flatMap_append, List.flatMap_cons, List.count_append]
  intro q
  have := held q
  omega

theorem Sound.scan {p : Path} (h : s.Sound source ⟨claimed, table, before ++ .waiting p :: after, scans⟩) :
    s.Sound source ⟨claimed, table, before ++ .claiming (s.scanned p) (s.scanned p).files [] :: after,
      scans ++ [p]⟩ := by
  have same : (Discovery.paths ⟨claimed, table, before ++ .claiming (s.scanned p) (s.scanned p).files [] :: after,
      scans ++ [p]⟩).Perm (Discovery.paths ⟨claimed, table, before ++ .waiting p :: after, scans⟩) :=
    paths_perm [] (.waiting p) (.claiming (s.scanned p) _ []) (.refl [p])
  have visits := h.visits
  rw [List.forall_mem_append, List.forall_mem_cons] at visits
  refine ⟨h.nodup, (same.map _).trans h.claimed_perm, ?_, same.mem_iff.2 h.source_mem,
    fun q hq => (h.reached q (same.mem_iff.1 hq)).mono same.symm.subset, h.read, h.closed, ?_⟩
  · have scans_perm := h.scans_perm
    simp only [List.perm_iff_count, Discovery.readPaths, List.flatMap_append, List.flatMap_cons, Visit.reading,
      List.count_append, List.count_nil, scanned] at scans_perm ⊢
    intro q
    have := scans_perm q
    omega
  · rw [List.forall_mem_append, List.forall_mem_cons]
    exact ⟨visits.1, ⟨rfl, fun q hq => mem_files_scanned.1 hq, fun q hq => .inl (mem_files_scanned.2 hq)⟩, visits.2.2⟩

theorem Sound.win (h : s.Sound source ⟨claimed, table, before ++ .claiming file (p :: left) won :: after, scans⟩)
    (new : p.key s.policy ∉ claimed) :
    s.Sound source ⟨p.key s.policy :: claimed, table, before ++ .claiming file left (won ++ [p]) :: after, scans⟩ := by
  have more : (Discovery.paths ⟨p.key s.policy :: claimed, table, before ++ .claiming file left (won ++ [p]) :: after,
      scans⟩).Perm (p :: Discovery.paths ⟨claimed, table, before ++ .claiming file (p :: left) won :: after, scans⟩) :=
    paths_perm [p] (.claiming file (p :: left) won) (.claiming file left (won ++ [p]))
      (List.perm_append_singleton p (file.file :: won))
  have sub : claimed ⊆ p.key s.policy :: claimed := List.subset_cons_self _ _
  have visits := h.visits
  rw [List.forall_mem_append, List.forall_mem_cons] at visits
  obtain ⟨visitsBefore, ⟨isScan, leftIncluded, rest⟩, visitsAfter⟩ := visits
  refine ⟨List.nodup_cons.2 ⟨new, h.nodup⟩, (more.map _).trans (h.claimed_perm.cons _), ?_,
    more.mem_iff.2 (List.mem_cons_of_mem _ h.source_mem), ?_, h.read, fun f hf q hq => sub (h.closed f hf q hq), ?_⟩
  · simpa [Discovery.readPaths, Visit.reading] using h.scans_perm
  · have kept := List.Subset.trans (List.subset_cons_self p _) more.symm.subset
    intro q hq
    rcases List.mem_cons.1 (more.mem_iff.1 hq) with rfl | hq
    · have file_mem : file.file ∈ Discovery.paths ⟨claimed, table, before ++ .claiming file (q :: left) won :: after,
          scans⟩ := by simp [Discovery.paths, Visit.held]
      exact ((h.reached _ file_mem).mono kept).tail ⟨kept file_mem, leftIncluded q List.mem_cons_self⟩
    · exact (h.reached q hq).mono kept
  · rw [List.forall_mem_append, List.forall_mem_cons]
    refine ⟨fun v hv => (visitsBefore v hv).mono sub, ⟨isScan, ?_, ?_⟩, fun v hv => (visitsAfter v hv).mono sub⟩
    · exact fun q hq => leftIncluded q (List.mem_cons_of_mem _ hq)
    · intro q hq
      rcases rest q hq with mem | mem
      · rcases List.mem_cons.1 mem with rfl | mem
        · exact .inr List.mem_cons_self
        · exact .inl mem
      · exact .inr (sub mem)

theorem Sound.lose (h : s.Sound source ⟨claimed, table, before ++ .claiming file (p :: left) won :: after, scans⟩)
    (old : p.key s.policy ∈ claimed) :
    s.Sound source ⟨claimed, table, before ++ .claiming file left won :: after, scans⟩ := by
  have same : (Discovery.paths ⟨claimed, table, before ++ .claiming file left won :: after, scans⟩).Perm
      (Discovery.paths ⟨claimed, table, before ++ .claiming file (p :: left) won :: after, scans⟩) :=
    paths_perm [] (.claiming file (p :: left) won) (.claiming file left won) (.refl (file.file :: won))
  have visits := h.visits
  rw [List.forall_mem_append, List.forall_mem_cons] at visits
  obtain ⟨visitsBefore, ⟨isScan, leftIncluded, rest⟩, visitsAfter⟩ := visits
  refine ⟨h.nodup, (same.map _).trans h.claimed_perm, ?_, same.mem_iff.2 h.source_mem,
    fun q hq => (h.reached q (same.mem_iff.1 hq)).mono same.symm.subset, h.read, h.closed, ?_⟩
  · simpa [Discovery.readPaths, Visit.reading] using h.scans_perm
  · rw [List.forall_mem_append, List.forall_mem_cons]
    refine ⟨visitsBefore, ⟨isScan, fun q hq => leftIncluded q (List.mem_cons_of_mem _ hq), ?_⟩, visitsAfter⟩
    intro q hq
    rcases rest q hq with mem | mem
    · rcases List.mem_cons.1 mem with rfl | mem
      · exact .inr old
      · exact .inl mem
    · exact .inr mem

/-- The file of a worker is not in the table before the worker puts it there. -/
theorem Sound.fresh (h : s.Sound source ⟨claimed, table, before ++ .claiming file left won :: after, scans⟩) :
    file.file.key s.policy ∉ (table.map ScannedFile.file).map (Path.key s.policy) := by
  have nodup := h.claimed_perm.nodup_iff.2 h.nodup
  rw [Discovery.paths, List.map_append, List.nodup_append] at nodup
  intro mem
  refine nodup.2.2 _ mem _ ?_ rfl
  simp [Visit.held]

/-- A worker that puts its file into the table does not hold it any longer. -/
theorem Sound.paths_record (h : s.Sound source ⟨claimed, table, before ++ .claiming file left won :: after, scans⟩) :
    (Discovery.paths ⟨claimed, s.record table file, before ++ .through won :: after, scans⟩).Perm
      (Discovery.paths ⟨claimed, table, before ++ .claiming file left won :: after, scans⟩) := by
  rw [record_of_fresh h.fresh]
  simp only [List.perm_iff_count, Discovery.paths, List.map_append, List.map_cons, List.map_nil, List.flatMap_append,
    List.flatMap_cons, Visit.held, List.count_append, List.count_cons, List.count_nil]
  intro q
  omega

theorem Sound.record (h : s.Sound source ⟨claimed, table, before ++ .claiming file [] won :: after, scans⟩) :
    s.Sound source ⟨claimed, s.record table file, before ++ .through won :: after, scans⟩ := by
  have same := h.paths_record
  rw [record_of_fresh h.fresh] at same ⊢
  have visits := h.visits
  rw [List.forall_mem_append, List.forall_mem_cons] at visits
  obtain ⟨visitsBefore, ⟨isScan, _, rest⟩, visitsAfter⟩ := visits
  refine ⟨h.nodup, (same.map _).trans h.claimed_perm, ?_, same.mem_iff.2 h.source_mem,
    fun q hq => (h.reached q (same.mem_iff.1 hq)).mono same.symm.subset, ?_, ?_, ?_⟩
  · have scans_perm := h.scans_perm
    simp only [List.perm_iff_count, Discovery.readPaths, List.map_append, List.flatMap_append, List.flatMap_cons,
      Visit.reading, List.map_cons, List.map_nil, List.count_append, List.count_cons, List.count_nil] at scans_perm ⊢
    intro q
    have := scans_perm q
    omega
  · rw [List.forall_mem_append, List.forall_mem_singleton]
    exact ⟨h.read, isScan⟩
  · rw [List.forall_mem_append, List.forall_mem_singleton]
    exact ⟨h.closed, fun q hq => (rest q hq).resolve_left List.not_mem_nil⟩
  · rw [List.forall_mem_append, List.forall_mem_cons]
    exact ⟨visitsBefore, trivial, visitsAfter⟩

/-- What the workers of a frontier have won is what those of the next one hold. -/
theorem paths_advance (claimed : List Text) (table : List ScannedFile) (won : List Path) (more : List (List Path))
    (scans : List Path) :
    Discovery.paths ⟨claimed, table, (won ++ more.flatten).map .waiting, scans⟩ =
      Discovery.paths ⟨claimed, table, .through won :: more.map .through, scans⟩ := by
  simp only [Discovery.paths, List.flatMap_map, List.flatMap_cons, Visit.held, List.flatMap_singleton',
    List.flatMap_id']

theorem Sound.advance {more : List (List Path)}
    (h : s.Sound source ⟨claimed, table, .through won :: more.map .through, scans⟩) :
    s.Sound source ⟨claimed, table, (won ++ more.flatten).map .waiting, scans⟩ := by
  have paths := paths_advance claimed table won more scans
  have readPaths : Discovery.readPaths ⟨claimed, table, (won ++ more.flatten).map .waiting, scans⟩ =
      Discovery.readPaths ⟨claimed, table, .through won :: more.map .through, scans⟩ := by
    -- nobody is reading, neither before nor after
    have before : (Visit.through won :: more.map Visit.through).flatMap Visit.reading = [] := by
      rw [List.flatMap_eq_nil_iff, List.forall_mem_cons]
      exact ⟨rfl, fun v hv => by obtain ⟨_, _, rfl⟩ := List.mem_map.1 hv; rfl⟩
    have after : ((won ++ more.flatten).map Visit.waiting).flatMap Visit.reading = [] := by
      rw [List.flatMap_eq_nil_iff]
      exact fun v hv => by obtain ⟨_, _, rfl⟩ := List.mem_map.1 hv; rfl
    rw [Discovery.readPaths, Discovery.readPaths, before, after]
  refine ⟨h.nodup, by rw [paths]; exact h.claimed_perm, by rw [readPaths]; exact h.scans_perm,
    by rw [paths]; exact h.source_mem, by rw [paths]; exact h.reached, h.read, h.closed, ?_⟩
  intro v hv
  obtain ⟨p, _, rfl⟩ := List.mem_map.1 hv
  trivial

end Steps

/-- **Every step keeps discovery sound.** -/
theorem Sound.step (h : s.Sound source d) (step : s.Step d d') : s.Sound source d' := by
  cases step with
  | scan => exact h.scan
  | win new => exact h.win new
  | lose old => exact h.lose old
  | record => exact h.record
  | advance => exact h.advance

theorem Sound.run (h : s.Sound source d) (run : s.Run d d') : s.Sound source d' := by
  induction run with
  | refl => exact h
  | tail _ step ih => exact ih.step step

/-! ## Why every schedule ends -/

/-- What a file on the frontier takes: reading it, claiming what it includes, putting it into the table, and the step to the
next frontier. -/
def load (s : Search) (file : Path) : Nat := (s.scanned file).files.length + 3

/-- What a worker has left to do on this frontier, with what its files take on the next one. -/
def visitWork (s : Search) : Visit → Nat
  | .waiting file => s.load file
  | .claiming _ left won => left.length + 2 + total (won.map s.load)
  | .through won => 1 + total (won.map s.load)

/-- What is left to do if no more keys are claimed. -/
def work (s : Search) (d : Discovery) : Nat := total (d.visits.map s.visitWork)

/-- How many keys of paths that can be opened have not been claimed. -/
noncomputable def unclaimedKeys (s : Search) (d : Discovery) : Nat :=
  unseen (Path.openable.map (Path.key s.policy)) d.claimed

/-- What the workers have won takes less on the next frontier than what they have left on this one. -/
theorem total_load_flatten_le (s : Search) (more : List (List Path)) :
    total (more.flatten.map s.load) ≤ total ((more.map Visit.through).map s.visitWork) := by
  induction more with
  | nil => simp
  | cons won more ih =>
    simp only [List.flatten_cons, List.map_append, total_append, List.map_cons, total_cons, visitWork]
    omega

/-- There is less to do on the next frontier. -/
theorem work_advance_lt (s : Search) (claimed : List Text) (table : List ScannedFile) (won : List Path)
    (more : List (List Path)) (scans : List Path) :
    s.work ⟨claimed, table, (won ++ more.flatten).map .waiting, scans⟩ <
      s.work ⟨claimed, table, .through won :: more.map .through, scans⟩ := by
  have le := s.total_load_flatten_le more
  have next : total (((won ++ more.flatten).map Visit.waiting).map s.visitWork) =
      total (won.map s.load) + total (more.flatten.map s.load) := by
    rw [List.map_map, ← total_append, ← List.map_append]
    rfl
  simp only [work]
  rw [next, List.map_cons, total_cons, visitWork]
  omega

theorem isOpenable_of_includes {p q : Path} (h : s.Includes p q) : q.isOpenable := by
  obtain ⟨_, _, d, _, found⟩ := h
  exact isOpenable_of_resolve found

/-- A step leaves fewer keys to be claimed, or less work. -/
theorem Sound.lex_lt (h : s.Sound source d) (step : s.Step d d') :
    Prod.Lex (· < ·) (· < ·) (s.unclaimedKeys d', s.work d') (s.unclaimedKeys d, s.work d) := by
  cases step with
  | scan file =>
    refine .right _ ?_
    simp only [work, List.map_append, List.map_cons, total_append, total_cons, visitWork, load, List.map_nil, total_nil]
    omega
  | @win claimed table before after scans file p left won new =>
    refine .left _ _ (unseen_cons_lt ?_ new)
    obtain ⟨_, included, _⟩ := h.visits _ (List.mem_append_right before List.mem_cons_self)
    have canOpen := Path.mem_openable (isOpenable_of_includes (included p List.mem_cons_self))
    exact List.mem_map.2 ⟨p, canOpen, rfl⟩
  | lose old =>
    refine .right _ ?_
    simp only [work, List.map_append, List.map_cons, total_append, total_cons, visitWork, List.length_cons]
    omega
  | record =>
    refine .right _ ?_
    simp only [work, List.map_append, List.map_cons, total_append, total_cons, visitWork, List.length_nil]
    omega
  | advance => exact .right _ (s.work_advance_lt _ _ _ _ _)

/-- **No schedule goes on forever.** -/
theorem Sound.acc {d : Discovery} (h : s.Sound source d) : Acc (fun later earlier => s.Step earlier later) d :=
  ⟨_, fun _ step => (h.step step).acc⟩
termination_by (s.unclaimedKeys d, s.work d)
decreasing_by exact h.lex_lt step

/-! ## Why no worker is stuck -/

theorem exists_busy_or_through (visits : List Visit) :
    (∃ before v after, visits = before ++ v :: after ∧ ∀ won, v ≠ .through won) ∨
      ∃ more : List (List Path), visits = more.map Visit.through := by
  induction visits with
  | nil => exact .inr ⟨[], rfl⟩
  | cons v visits ih =>
    cases v with
    | waiting | claiming => exact .inl ⟨[], _, visits, rfl, fun _ e => nomatch e⟩
    | through won =>
      rcases ih with ⟨before, v, after, rfl, busy⟩ | ⟨more, rfl⟩
      · exact .inl ⟨.through won :: before, v, after, rfl, busy⟩
      · exact .inr ⟨won :: more, rfl⟩

theorem exists_step (s : Search) (h : d.visits ≠ []) : ∃ d', s.Step d d' := by
  obtain ⟨claimed, table, visits, scans⟩ := d
  rcases exists_busy_or_through visits with ⟨before, v, after, rfl, busy⟩ | ⟨more, rfl⟩
  · cases v with
    | waiting file => exact ⟨_, .scan file⟩
    | through won => exact absurd rfl (busy won)
    | claiming file left won =>
      cases left with
      | nil => exact ⟨_, .record⟩
      | cons p left =>
        by_cases old : p.key s.policy ∈ claimed
        · exact ⟨_, .lose old⟩
        · exact ⟨_, .win old⟩
  · cases more with
    | nil => exact absurd rfl h
    | cons won more => exact ⟨_, .advance⟩

theorem not_step_of_visits_eq_nil (h : d.visits = []) : ¬ s.Step d d' := by
  intro step
  cases step <;> simp at h

/-! ## The end -/

theorem paths_of_visits_eq_nil (last : d.visits = []) : d.paths = d.table.map ScannedFile.file := by
  rw [Discovery.paths, last, List.flatMap_nil, List.append_nil]

/-- **Whatever the schedule was, the table covers what the source includes.** -/
theorem Sound.covers (h : s.Sound source d) (last : d.visits = []) : s.Covers source d.table := by
  have paths := paths_of_visits_eq_nil last
  have keys : d.paths.map (Path.key s.policy) = d.table.map fun f => f.file.key s.policy := by
    rw [paths, List.map_map]
    rfl
  have claimed : (d.table.map fun f => f.file.key s.policy).Perm d.claimed := keys ▸ h.claimed_perm
  refine ⟨claimed.nodup_iff.2 h.nodup, fun f hf => ?_, ?_, fun f hf => ?_, fun f hf q hq => ?_⟩
  · exact congrArg ScannedFile.includes (h.read f hf)
  · have := h.source_mem
    rw [paths] at this
    exact List.mem_map.1 this
  · have reached := h.reached f.file
    rw [paths] at reached
    exact reached (List.mem_map.2 ⟨f, hf, rfl⟩)
  · exact List.mem_map.1 (claimed.mem_iff.2 (h.closed f hf q hq))

/-- Every file of the table was read once, and no other file was read. -/
theorem Sound.scans_perm_table (h : s.Sound source d) (last : d.visits = []) :
    d.scans.Perm (d.table.map ScannedFile.file) := by
  have := h.scans_perm
  rwa [Discovery.readPaths, last, List.flatMap_nil, List.append_nil] at this

/-! ## Reading one file after the other is a schedule -/

section Sequential

variable {claimed : List Path} {keys : List Text}

theorem any_sameFile_iff {file : Path} :
    claimed.any (s.sameFile file) = true ↔ file.key s.policy ∈ claimed.map (Path.key s.policy) := by
  simp only [List.any_eq_true, sameFile, beq_iff_eq, List.mem_map]
  constructor
  · rintro ⟨c, mem, e⟩
    exact ⟨c, mem, e.symm⟩
  · rintro ⟨c, mem, e⟩
    exact ⟨c, mem, e.symm⟩

/-- A worker claims what nobody has claimed of the files that are left. -/
theorem exists_run_claiming (same : ∀ key, key ∈ keys ↔ key ∈ claimed.map (Path.key s.policy)) (table : List ScannedFile)
    (before after : List Visit) (scans : List Path) (file : ScannedFile) (left won : List Path) :
    ∃ keys', (∀ key, key ∈ keys' ↔ key ∈ (s.unclaimed claimed left ++ claimed).map (Path.key s.policy)) ∧
      s.Run ⟨keys, table, before ++ .claiming file left won :: after, scans⟩
        ⟨keys', table, before ++ .claiming file [] (won ++ s.unclaimed claimed left) :: after, scans⟩ := by
  induction left generalizing claimed keys won with
  | nil =>
    rw [unclaimed, List.append_nil]
    exact ⟨keys, same, .refl⟩
  | cons p left ih =>
    rw [unclaimed]
    split
    · rename_i old
      rw [any_sameFile_iff, ← same] at old
      obtain ⟨keys', same', run⟩ := ih same won
      exact ⟨keys', same', .head (.lose old) run⟩
    · rename_i new
      rw [any_sameFile_iff, ← same] at new
      have grown : ∀ key, key ∈ p.key s.policy :: keys ↔ key ∈ (p :: claimed).map (Path.key s.policy) := by
        intro key
        rw [List.map_cons, List.mem_cons, List.mem_cons, same]
      obtain ⟨keys', same', run⟩ := ih grown (won ++ [p])
      rw [List.append_assoc, List.singleton_append] at run
      refine ⟨keys', fun key => ?_, .head (.win new) run⟩
      rw [same', List.cons_append, List.map_cons, List.map_append, List.map_append, List.map_cons]
      simp only [List.mem_append, List.mem_cons]
      exact or_left_comm

/-- A worker is through with its file. -/
theorem exists_run_visit {table : List ScannedFile} {before after : List Visit} {scans : List Path} {p : Path}
    (sound : s.Sound source ⟨keys, table, before ++ .waiting p :: after, scans⟩)
    (same : ∀ key, key ∈ keys ↔ key ∈ claimed.map (Path.key s.policy)) :
    ∃ keys', (∀ key, key ∈ keys' ↔ key ∈ (s.unclaimed claimed (s.scanned p).files ++ claimed).map (Path.key s.policy)) ∧
      s.Run ⟨keys, table, before ++ .waiting p :: after, scans⟩ ⟨keys', table ++ [s.scanned p],
        before ++ .through (s.unclaimed claimed (s.scanned p).files) :: after, scans ++ [p]⟩ := by
  obtain ⟨keys', same', claiming⟩ :=
    exists_run_claiming same table before after (scans ++ [p]) (s.scanned p) (s.scanned p).files []
  rw [List.nil_append] at claiming
  have run : s.Run ⟨keys, table, before ++ .waiting p :: after, scans⟩ _ := .head (.scan p) claiming
  have recorded := run.tail .record
  rw [record_of_fresh (sound.run run).fresh] at recorded
  exact ⟨keys', same', recorded⟩

theorem step_through {wins : List (List Path)} (some : wins ≠ []) (keys : List Text) (table : List ScannedFile)
    (scans : List Path) : s.Step ⟨keys, table, wins.map .through, scans⟩
      ⟨keys, table, wins.flatten.map .waiting, scans⟩ := by
  cases wins with
  | nil => exact absurd rfl some
  | cons won more => exact .advance

/-- The file at the front of a queue waits on the frontier, or it does so on the next one. -/
theorem exists_run_front {file : Path} {queue rest : List Path} {wins : List (List Path)}
    (split : file :: queue = rest ++ wins.flatten) (keys : List Text) (table : List ScannedFile) (scans : List Path) :
    ∃ (wins' : List (List Path)) (rest' : List Path), queue = rest' ++ wins'.flatten ∧
      s.Run ⟨keys, table, wins.map .through ++ rest.map .waiting, scans⟩
        ⟨keys, table, wins'.map .through ++ .waiting file :: rest'.map .waiting, scans⟩ := by
  cases rest with
  | cons p rest =>
    cases split
    exact ⟨wins, rest, rfl, .refl⟩
  | nil =>
    rw [List.nil_append] at split
    have some : wins ≠ [] := by
      rintro rfl
      cases split
    have step := step_through (s := s) some keys table scans
    rw [← split] at step
    rw [List.map_nil, List.append_nil]
    exact ⟨[], queue, (List.append_nil _).symm, .single step⟩

/-- The workers of a frontier come one after the other: some are through, and the others wait. -/
theorem exists_run_discoverFrom {queue : List Path} {table : List ScannedFile} {scans rest : List Path}
    (wins : List (List Path)) (split : queue = rest ++ wins.flatten)
    (sound : s.Sound source ⟨keys, table, wins.map .through ++ rest.map .waiting, scans⟩)
    (same : ∀ key, key ∈ keys ↔ key ∈ claimed.map (Path.key s.policy)) :
    ∃ d, s.Run ⟨keys, table, wins.map .through ++ rest.map .waiting, scans⟩ d ∧ d.visits = [] ∧
      d.table = table ++ (s.discoverFrom claimed none queue).1 := by
  generalize noCache : (none : Option DirectiveCache) = cache
  fun_induction s.discoverFrom claimed cache queue generalizing keys table scans rest wins with
  | case1 claimed cache =>
    obtain ⟨rfl, empty⟩ := List.append_eq_nil_iff.1 split.symm
    rw [List.map_nil, List.append_nil]
    by_cases none : wins = []
    · subst none
      exact ⟨_, .refl, rfl, (List.append_nil _).symm⟩
    · have step := step_through (s := s) none keys table scans
      rw [empty] at step
      exact ⟨_, .single step, rfl, (List.append_nil _).symm⟩
  | case2 claimed cache file queue =>
    rename_i new later ih
    subst noCache
    obtain ⟨wins', rest', split', toFront⟩ := exists_run_front (s := s) split keys table scans
    have soundFront := sound.run toFront
    obtain ⟨keys', same', visit⟩ := exists_run_visit soundFront same
    have soundAfter := soundFront.run visit
    -- the worker that is through is the last one of those that are
    have visits : wins'.map Visit.through ++ .through (s.unclaimed claimed (s.scanned file).files) :: rest'.map .waiting =
        (wins' ++ [new]).map .through ++ rest'.map .waiting := by
      rw [List.map_append, List.append_assoc]
      rfl
    have queued : queue ++ new = rest' ++ (wins' ++ [new]).flatten := by simp [split']
    rw [visits] at visit soundAfter
    obtain ⟨d, later, last, read⟩ := ih _ queued soundAfter same' rfl
    refine ⟨d, (toFront.trans visit).trans later, last, ?_⟩
    rw [read, List.append_assoc]
    rfl

/-- **Reading one file after the other is a schedule.** -/
theorem exists_run_discover (s : Search) (source : Path) :
    ∃ d, s.Run (s.start source) d ∧ d.visits = [] ∧ d.table = (s.discover none source).1 := by
  have same : ∀ key, key ∈ [source.key s.policy] ↔ key ∈ [source].map (Path.key s.policy) := fun _ => Iff.rfl
  exact exists_run_discoverFrom [] (List.append_nil [source]).symm (s.sound_start source) same

/-- **Discovery covers what the source includes**, directly or through others. -/
theorem discover_covers (s : Search) (source : Path) : s.Covers source (s.discover none source).1 := by
  obtain ⟨d, run, last, read⟩ := s.exists_run_discover source
  rw [← read]
  exact ((s.sound_start source).run run).covers last

end Sequential

end Search

end SolutionGraph.Include
