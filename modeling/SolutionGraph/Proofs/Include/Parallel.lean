import Mathlib.Data.List.Nodup
import SolutionGraph.Proofs.Include.Outcome

/-!
# The schedule of discovery does not matter

Which worker claims a shared header, and so in which order the next frontier stands, differs from schedule to schedule. If
keys tell all files apart, the outcome does not:

* **`Covers.perm`**: two tables that cover what a source includes hold the same files;
* **`grow_congr`**: a graph grows from what is found under each key, and not from the order of the table;
* **`graphOf_parallel`**: every schedule ends, it reads each reachable file once, and the include graph is the one that is
  made when the files are read one after the other.
-/

namespace SolutionGraph.Include

/-! ## Tables that cover the same files -/

namespace Search.Covers

variable {s : Search} {source : Path} {table other : List ScannedFile}

theorem mem_iff (h : s.Covers source table) (apart : s.TellsApart source) {f : ScannedFile} :
    f ∈ table ↔ s.Reaches source f.file ∧ f = s.scanned f.file := by
  constructor
  · intro hf
    have read : f = s.scanned f.file := by
      rw [scanned, ← h.read f hf]
    exact ⟨(h.reached f hf).reaches, read⟩
  · rintro ⟨reach, read⟩
    obtain ⟨g, hg, e⟩ := h.mem_of_reaches apart reach
    have same : g = f := by
      rw [read, ← e, scanned, ← h.read g hg]
    exact same ▸ hg

/-- **Two tables that cover what a source includes hold the same files**, if keys tell these apart. -/
theorem perm (h : s.Covers source table) (h' : s.Covers source other) (apart : s.TellsApart source) :
    table.Perm other := by
  refine (List.perm_ext_iff_of_nodup (List.Nodup.of_map _ h.nodup) (List.Nodup.of_map _ h'.nodup)).2 ?_
  intro f
  rw [h.mem_iff apart, h'.mem_iff apart]

end Search.Covers

/-! ## What a graph grows from -/

section Equations

variable {r : Reading} {stack : List Frame} {including : Path} {next : Nat} {finished : Finished} {i : Included}
  {rest : List Included}

theorem grow_of_nothing {warnings : List Warning} (placed : place r stack finished including i = .nothing warnings) :
    grow r stack including next finished (i :: rest) =
      (grow r stack including next finished rest).cons [] [] warnings := by
  rw [grow]
  split <;> rename_i placed'
  all_goals cases placed.symm.trans placed'
  rfl

theorem grow_of_shared {id : Nat} {warnings : List Warning}
    (placed : place r stack finished including i = .shared id warnings) :
    grow r stack including next finished (i :: rest) =
      (grow r stack including next finished rest).cons [id] [] warnings := by
  rw [grow]
  split <;> rename_i placed'
  all_goals cases placed.symm.trans placed'
  rfl

theorem grow_of_leaf {node : Node} {key : Option Text} {warnings : List Warning}
    (placed : place r stack finished including i = .leaf node key warnings) :
    grow r stack including next finished (i :: rest) =
      (grow r stack including (next + 1) (key.elim finished fun k => (k, next) :: finished) rest).cons [next] [node]
        warnings := by
  rw [grow]
  split <;> rename_i placed'
  all_goals cases placed.symm.trans placed'
  cases key <;> rfl

theorem grow_of_inner {file : Path} {includes : List Included} {below : Growth}
    (placed : place r stack finished including i = .inner file includes)
    (grown : grow r (⟨file.key r.policy, next, file⟩ :: stack) file (next + 1) finished includes = below) :
    grow r stack including next finished (i :: rest) =
      (grow r stack including (next + 1 + below.nodes.length) ((file.key r.policy, next) :: below.finished) rest).cons
        [next] (⟨file, .resolved, some i.directive, below.children⟩ :: below.nodes) below.warnings := by
  rw [grow]
  split <;> rename_i placed'
  all_goals cases placed.symm.trans placed'
  subst grown
  rfl

end Equations

section Congruence

variable {r r' : Reading}

theorem place_congr (policy : r.policy = r'.policy) (same : ∀ key, r.includes? key = r'.includes? key)
    (stack : List Frame) (finished : Finished) (including : Path) (i : Included) :
    place r stack finished including i = place r' stack finished including i := by
  unfold place placeFile
  simp only [policy, same]

/-- **A graph grows from what is found under each key**, and not from the order of the table. -/
theorem grow_congr (policy : r.policy = r'.policy) (same : ∀ key, r.includes? key = r'.includes? key)
    (stack : List Frame) (including : Path) (next : Nat) (finished : Finished) (includes : List Included) :
    grow r stack including next finished includes = grow r' stack including next finished includes := by
  fun_induction grow r stack including next finished includes with
  | case1 => rw [grow]
  | case2 stack including next finished i rest warnings placed ih =>
    rw [place_congr policy same] at placed
    rw [grow_of_nothing placed, ih]
  | case3 stack including next finished i rest id warnings placed ih =>
    rw [place_congr policy same] at placed
    rw [grow_of_shared placed, ih]
  | case4 stack including next finished i rest node key warnings placed kept ih =>
    have placed' := placed
    rw [place_congr policy same] at placed'
    rw [grow_of_leaf placed', ih]
    cases key <;> rfl
  | case5 stack including next finished i rest file includes placed key below node ih _ ihRest =>
    rw [place_congr policy same] at placed
    have grown : grow r' (⟨file.key r'.policy, next, file⟩ :: stack) file (next + 1) finished includes = below := by
      rw [← policy]
      exact ih.symm
    rw [grow_of_inner placed grown, ihRest, ← policy]

theorem ofReading_congr (policy : r.policy = r'.policy) (same : ∀ key, r.includes? key = r'.includes? key)
    (resolved : ResolvedRules) (source : Path) :
    Graph.ofReading r resolved source = Graph.ofReading r' resolved source := by
  unfold Graph.ofReading
  simp only [policy, same, grow_congr policy same]

end Congruence

/-! ## Every schedule comes to the same -/

theorem graphOf_congr {project : Project} {tree : FileTree} {options : Options} {source : Path} {configuration : Text}
    {table other : List ScannedFile} (sensitive : options.policy = .sensitive)
    (h : (project.headerSearch tree options configuration).Covers (project.listedPath source) table)
    (h' : (project.headerSearch tree options configuration).Covers (project.listedPath source) other) :
    project.graphOf tree options table source configuration =
      project.graphOf tree options other source configuration := by
  have same : ∀ key, Reading.includes? ⟨options.policy, table⟩ key = Reading.includes? ⟨options.policy, other⟩ key :=
    h.includes?_eq h' (Search.tellsApart_of_sensitive sensitive _)
  have policy : (⟨options.policy, table⟩ : Reading).policy = (⟨options.policy, other⟩ : Reading).policy := rfl
  simp only [Project.graphOf, ofReading_congr policy same]

/-- What every schedule of a search comes to. -/
theorem Search.run_outcome {s : Search} (sensitive : s.policy = .sensitive) {root : Path} {d : Discovery}
    (run : s.Run (s.start root) d) (last : d.visits = []) :
    d.table.Perm (s.discover none root).1 ∧ d.scans.Nodup ∧ ∀ p, p ∈ d.scans ↔ s.Reaches root p := by
  have sound := (s.sound_start root).run run
  have covers := sound.covers last
  have scans := sound.scans_perm_table last
  have apart := tellsApart_of_sensitive sensitive root
  refine ⟨covers.perm (s.discover_covers root) apart, ?_, ?_⟩
  · rw [scans.nodup_iff]
    have nodup := covers.nodup
    rw [← Function.comp_def (Path.key s.policy) ScannedFile.file, ← List.map_map] at nodup
    exact nodup.of_map
  · intro p
    rw [scans.mem_iff, List.mem_map]
    constructor
    · rintro ⟨f, hf, rfl⟩
      exact (covers.reached f hf).reaches
    · exact covers.mem_of_reaches apart

/-- **The schedule does not matter** if keys tell all files apart. To read the files one after the other is a schedule; no
schedule goes on forever or gets stuck; each ends with the same files in the table, having read each reachable file once;
and the include graph made from its table is the same. -/
theorem graphOf_parallel :
    (∀ (s : Search) (root : Path), s.policy = .sensitive →
      Acc (fun later earlier => s.Step earlier later) (s.start root) ∧
        (∃ d, s.Run (s.start root) d ∧ d.visits = [] ∧ d.table = (s.discover none root).1) ∧
        ∀ d, s.Run (s.start root) d →
          ((∃ d', s.Step d d') ↔ d.visits ≠ []) ∧
            (d.visits = [] → d.table.Perm (s.discover none root).1 ∧ d.scans.Nodup ∧
              ∀ p, p ∈ d.scans ↔ s.Reaches root p)) ∧
      ∀ (project : Project) (tree : FileTree) (options : Options) (source : Path) (configuration : Text) (d : Discovery),
        options.policy = .sensitive →
        (project.headerSearch tree options configuration).Run
          ((project.headerSearch tree options configuration).start (project.listedPath source)) d →
        d.visits = [] →
        project.graphOf tree options d.table source configuration =
          (project.includeGraph tree options none source configuration).1 := by
  refine ⟨fun s root sensitive => ⟨(s.sound_start root).acc, s.exists_run_discover root, fun d run => ⟨⟨?_, ?_⟩, ?_⟩⟩, ?_⟩
  · rintro ⟨d', step⟩ last
    exact Search.not_step_of_visits_eq_nil last step
  · exact s.exists_step
  · exact Search.run_outcome sensitive run
  · intro project tree options source configuration d sensitive run last
    rw [Project.includeGraph_eq_graphOf]
    have sound := (Search.sound_start _ _).run run
    exact graphOf_congr sensitive (sound.covers last) (Search.discover_covers _ _)

/-- Workers can be through with the sample, and then they have read what one worker reads. -/
theorem parallel_sample : ∃ d, (Sample.project.headerSearch Sample.tree .standard []).Run
      ((Sample.project.headerSearch Sample.tree .standard []).start (Sample.project.listedPath "m.c")) d ∧
    d.visits = [] ∧ d.scans.Nodup ∧ ∃ g, Sample.project.graphOf Sample.tree .standard d.table "m.c" [] = .ok g := by
  obtain ⟨d, run, last, _⟩ := Search.exists_run_discover _ _
  obtain ⟨g, built⟩ := Sample.exists_includeGraph []
  have sensitive : (Sample.project.headerSearch Sample.tree .standard []).policy = .sensitive := rfl
  have atEnd := ((graphOf_parallel.1 _ _ sensitive).2.2 d run).2 last
  have same := graphOf_parallel.2 Sample.project Sample.tree .standard "m.c" [] d rfl run last
  exact ⟨d, run, last, atEnd.2.1, g, same.trans built⟩

end SolutionGraph.Include
