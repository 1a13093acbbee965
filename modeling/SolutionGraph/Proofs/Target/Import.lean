import SolutionGraph.Proofs.Path.Normal
import SolutionGraph.Proofs.Target.Assembly

/-!
# Imports

Following imports ends, and loads each path once.

* **order** (`Orderly`): the entry script is the first one, no two scripts have paths that are the same, and each script
  after the first one is named by an import of an earlier one (`Names`). One step keeps that (`Orderly.step`), and so
  it holds at every moment (`Passes.orderly`);
* **places**: paths are compared as they are spelled, and a wildcard can lead to paths that are not in normal form. So
  a file can be loaded twice, but only if a wildcard names it (`Orderly.normalize_eq`).

`buildTree_loadsOnce` has both, and that loading ends; in `roundabout_twice` a script is loaded twice.
-/

namespace SolutionGraph.Target

open Markup (Element)
open Relation (ReflTransGen)

/-- An import of a script names a file: at some moment of loading its condition holds, and the file is among those that
its name leads to. -/
inductive Names (tree : FileTree) (options : Options) (entry : Path) (root : Element) : Path → Text → Path → Prop
  | mk {s : Loading} {importer path : Path} {paths : List Path} {script e : Element} {es : List Element}
    {rest : List Task} (now : Passes tree options entry root ⟨s, [], .visit importer (e :: es) :: rest⟩)
    (read : readScript tree importer = .ok script) (inside : e ∈ script.descendants) (named : e.name = "Import")
    (holds : (s.check (siteOf tree options entry) importer e).1 = true)
    (leads : resolveImport (siteOf tree options entry) importer (importName s.bag e) = some paths) (mem : path ∈ paths) :
    Names tree options entry root importer (importName s.bag e) path

section Imports

variable {tree : FileTree} {options : Options} {entry : Path} {root : Element}

/-- A task is there because of scripts that have been loaded. -/
def Rightful (tree : FileTree) (options : Options) (entry : Path) (root : Element) (scripts : List Path) : Task → Prop
  | .visit script es => script ∈ scripts ∧ ∃ outer, readScript tree script = .ok outer ∧ ∀ e ∈ es, e ∈ outer.descendants
  | .load importer path => importer ∈ scripts ∧ ∃ name, Names tree options entry root importer name path
  | .resume _ => True

theorem Rightful.mono {scripts : List Path} {task : Task} (h : Rightful tree options entry root scripts task)
    (more : List Path) : Rightful tree options entry root (scripts ++ more) task := by
  cases task with
  | visit script es => exact ⟨List.mem_append_left _ h.1, h.2⟩
  | load importer path => exact ⟨List.mem_append_left _ h.1, h.2⟩
  | resume script => trivial

theorem Rightful.tail {scripts : List Path} {script : Path} {e : Element} {es : List Element}
    (h : Rightful tree options entry root scripts (.visit script (e :: es))) :
    Rightful tree options entry root scripts (.visit script es) := by
  obtain ⟨loaded, outer, read, inside⟩ := h
  exact ⟨loaded, outer, read, fun c mem => inside c (List.mem_cons_of_mem _ mem)⟩

/-- The scripts that are loaded at some moment, and how they came to be. -/
structure Orderly (tree : FileTree) (options : Options) (entry : Path) (root : Element) (m : Moment) : Prop where
  /-- The entry script is the first one. -/
  first : m.state.scripts.head? = some entry
  /-- What is loaded was tried. -/
  tried : ∀ p ∈ m.state.scripts, p ∈ m.state.visited
  /-- No two paths are the same. -/
  distinct : m.state.scripts.Pairwise fun p q => p.same q = false
  /-- Each script after the first one is named by an earlier one. -/
  named : ∀ i p, m.state.scripts[i + 1]? = some p →
    ∃ importer ∈ m.state.scripts.take (i + 1), ∃ name, Names tree options entry root importer name p
  /-- What is left to do goes back to scripts that are loaded. -/
  tasks : ∀ task ∈ m.tasks, Rightful tree options entry root m.state.scripts task

namespace Orderly

variable {m m' : Moment}

theorem start (read : readScript tree entry = .ok root) :
    Orderly tree options entry root ⟨startOf options entry, [], [.visit entry root.elements]⟩ where
  first := rfl
  tried := by
    intro p mem
    exact mem
  distinct := List.pairwise_singleton _ _
  named := by
    intro i p found
    cases found
  tasks := by
    intro task mem
    obtain rfl := List.mem_singleton.1 mem
    exact ⟨List.mem_singleton_self entry, root, read, fun e inside => mem_descendants_of_mem_elements inside⟩

/-- Only tasks are done. -/
theorem of_tasks (h : Orderly tree options entry root m) (scripts : m'.state.scripts = m.state.scripts)
    (visited : ∀ p ∈ m.state.visited, p ∈ m'.state.visited)
    (tasks : ∀ task ∈ m'.tasks, Rightful tree options entry root m.state.scripts task) :
    Orderly tree options entry root m' where
  first := scripts ▸ h.first
  tried := fun p mem => visited p (h.tried p (scripts ▸ mem))
  distinct := scripts ▸ h.distinct
  named := scripts ▸ h.named
  tasks := scripts ▸ tasks

/-- What an element leaves to be done goes back to its script. -/
theorem rightful_of_visit {s s' : Loading} {script : Path} {e : Element} {es : List Element} {rest tasks : List Task}
    (now : Passes tree options entry root ⟨s, [], .visit script (e :: es) :: rest⟩)
    (h : Rightful tree options entry root s.scripts (.visit script (e :: es)))
    (visit : Visit (siteOf tree options entry) s script e s' tasks) :
    ∀ task ∈ tasks, Rightful tree options entry root s.scripts task := by
  obtain ⟨loaded, outer, read, inside⟩ := h
  have own : e ∈ outer.descendants := inside e List.mem_cons_self
  intro task mem
  cases visit with
  | pass | group | unresolved | target => cases mem
  | resolved named holds found =>
    obtain ⟨path, leads, rfl⟩ := List.mem_map.1 mem
    exact ⟨loaded, _, .mk now read own named holds found leads⟩
  | inner notes below =>
    obtain rfl := List.mem_singleton.1 mem
    exact ⟨loaded, outer, read, fun c mem => mem_descendants_trans own (below c mem)⟩

/-- A script that was not tried before is loaded. -/
theorem load {s : Loading} {importer path : Path} {rest : List Task} {script : Element}
    (h : Orderly tree options entry root ⟨s, [], .load importer path :: rest⟩) (new : s.hasTried path = false)
    (read : readScript tree path = .ok script) :
    Orderly tree options entry root
      ⟨({ s with visited := path :: s.visited, scripts := s.scripts ++ [path] } : Loading).enter path, [],
        .visit path script.elements :: .resume importer :: rest⟩ where
  first := by
    have first := h.first
    simp only [Loading.enter] at first ⊢
    rw [List.head?_append, first]
    rfl
  tried := by
    intro p mem
    rcases List.mem_append.1 mem with old | mem
    · exact List.mem_cons_of_mem _ (h.tried p old)
    · exact List.mem_cons.2 (.inl (List.mem_singleton.1 mem))
  distinct := by
    refine List.pairwise_append.2 ⟨h.distinct, List.pairwise_singleton _ _, fun p old q mem => ?_⟩
    obtain rfl := List.mem_singleton.1 mem
    rw [Path.same_comm]
    have none := List.any_eq_false.1 new p (h.tried p old)
    simpa using none
  named := by
    intro i p found
    obtain ⟨from_, name, named⟩ := h.tasks _ List.mem_cons_self
    simp only [Loading.enter] at found ⊢
    rcases Nat.lt_or_ge (i + 1) s.scripts.length with old | last
    · rw [List.getElem?_append_left old] at found
      rw [List.take_append_of_le_length (by omega)]
      exact h.named i p found
    · have exact_ : s.scripts.length = i + 1 := by
        have bound := (List.getElem?_eq_some_iff.1 found).1
        rw [List.length_append, List.length_singleton] at bound
        omega
      rw [← exact_, List.getElem?_concat_length] at found
      cases found
      rw [← exact_, List.take_left]
      exact ⟨importer, from_, name, named⟩
  tasks := by
    intro task mem
    simp only [Loading.enter]
    rcases List.mem_cons.1 mem with rfl | mem
    · refine ⟨List.mem_append_right _ (List.mem_singleton_self path), script, read, ?_⟩
      exact fun e inside => mem_descendants_of_mem_elements inside
    rcases List.mem_cons.1 mem with rfl | mem
    · trivial
    · exact (h.tasks task (List.mem_cons_of_mem _ mem)).mono [path]

theorem step (now : Passes tree options entry root m) (h : Orderly tree options entry root m)
    (step : Advance (siteOf tree options entry) m m') : Orderly tree options entry root m' := by
  have done {t : Task} {rest : List Task} (tasks : m.tasks = t :: rest) :
      ∀ task ∈ rest, Rightful tree options entry root m.state.scripts task :=
    fun task mem => h.tasks task (tasks ▸ List.mem_cons_of_mem t mem)
  cases step with
  | @assign s script e more tasks =>
    refine h.of_tasks (scripts_applyProperty _ script s e) (fun p mem => ?_) h.tasks
    rwa [visited_applyProperty]
  | @group s script e es rest =>
    have notes := onlyNotes_check (siteOf tree options entry) s script e
    refine h.of_tasks notes.scripts (fun p mem => notes.visited.symm ▸ mem) fun task mem => ?_
    rcases List.mem_cons.1 mem with rfl | mem
    · exact (h.tasks _ List.mem_cons_self).tail
    · exact done rfl task mem
  | @element s script e es rest other =>
    have visit := visit_visitElement (siteOf tree options entry) s script e
    have own := h.tasks _ List.mem_cons_self
    refine h.of_tasks visit.scripts (fun p mem => (visited_visitElement _ s script e).symm ▸ mem) fun task mem => ?_
    rcases List.mem_append.1 mem with mem | mem
    · exact rightful_of_visit now own visit task mem
    rcases List.mem_cons.1 mem with rfl | mem
    · exact own.tail
    · exact done rfl task mem
  | finish => exact h.of_tasks rfl (fun p mem => mem) (done rfl)
  | resume => exact h.of_tasks rfl (fun p mem => mem) (done rfl)
  | skip => exact h.of_tasks rfl (fun p mem => mem) (done rfl)
  | broken => exact h.of_tasks rfl (fun p mem => List.mem_cons_of_mem _ mem) (done rfl)
  | load new read => exact h.load new.2 read

end Orderly

theorem Passes.orderly {m : Moment} (now : Passes tree options entry root m) (read : readScript tree entry = .ok root) :
    Orderly tree options entry root m := by
  induction now with
  | refl => exact Orderly.start read
  | tail before step ih => exact ih.step before step

/-! ## Places -/

/-- What is named without a wildcard is in normal form. -/
theorem Names.normalize_eq {importer path : Path} {name : Text} (h : Names tree options entry root importer name path)
    (plain : isWildcard name = false) : path.normalize = path := by
  obtain ⟨now, read, inside, named, holds, leads, mem⟩ := h
  obtain ⟨base, rfl, -⟩ := exists_of_resolveImport leads plain
  obtain rfl := List.mem_singleton.1 mem
  exact Path.normalize_normalize _

theorem normalize_entryPath (tree : FileTree) (options : Options) :
    (entryPath tree options).normalize = entryPath tree options := by
  obtain ⟨p, normal⟩ := exists_normalize_eq_entryPath tree options
  rw [← normal, Path.normalize_normalize]

/-- A file is named by a wildcard. -/
def IsMatch (tree : FileTree) (options : Options) (entry : Path) (root : Element) (path : Path) : Prop :=
  ∃ importer name, isWildcard name ∧ Names tree options entry root importer name path

theorem Orderly.normalize_eq {m : Moment} {p : Path} (h : Orderly tree options entry root m)
    (normal : entry.normalize = entry) (mem : p ∈ m.state.scripts) :
    p.normalize = p ∨ IsMatch tree options entry root p := by
  obtain ⟨i, found⟩ := List.mem_iff_getElem?.1 mem
  cases i with
  | zero =>
    rw [← List.head?_eq_getElem?, h.first] at found
    cases found
    exact .inl normal
  | succ i =>
    obtain ⟨importer, _, name, named⟩ := h.named i p found
    cases wild : isWildcard name with
    | true => exact .inr ⟨importer, name, wild, named⟩
    | false => exact .inl (named.normalize_eq wild)

end Imports

/-- Each script is loaded once, because of an earlier one. -/
structure LoadsOnce (tree : FileTree) (options : Options) (entry : Path) (root : Element) (scripts : List Path) : Prop where
  /-- The entry script is the first one. -/
  first : scripts.head? = some entry
  /-- No two paths are the same. -/
  distinct : scripts.Pairwise fun p q => p.same q = false
  /-- Each script after the first one is named by an import of an earlier one. -/
  named : ∀ i p, scripts[i + 1]? = some p →
    ∃ importer ∈ scripts.take (i + 1), ∃ name, Names tree options entry root importer name p
  /-- No two paths lead to the same place, unless a wildcard names one of them. -/
  once : ∀ p ∈ scripts, ∀ q ∈ scripts, p.normalize = q.normalize →
    p = q ∨ IsMatch tree options entry root p ∨ IsMatch tree options entry root q

/-- The last moment of a loading comes after every other one. -/
theorem Passes.reaches_run {tree : FileTree} {options : Options} {entry : Path} {root : Element} {m : Moment}
    (now : Passes tree options entry root m) :
    ReflTransGen (Advance (siteOf tree options entry)) m
      ⟨run (siteOf tree options entry) (startOf options entry) [.visit entry root.elements], [], []⟩ := by
  have ends := Target.reaches_run (siteOf tree options entry) (startOf options entry) [.visit entry root.elements]
  have unique : Relator.RightUnique (Advance (siteOf tree options entry)) := fun _ _ _ => Advance.unique
  obtain later | earlier := ReflTransGen.total_of_right_unique unique now ends
  · exact later
  -- no step leads on from the last moment
  · rcases earlier.cases_head with same | ⟨_, step, _⟩
    · rw [same]
    · cases step

/-- **Imports end, and each path is loaded once**: no loading goes on for ever, and what `load` gives comes after every
moment. The scripts of a target tree are the entry script and others that earlier ones import, each path once, and each
file once unless a wildcard names it. -/
theorem buildTree_loadsOnce (tree : FileTree) (options : Options) :
    (∀ entry, (WellFounded fun m' m => Advance (siteOf tree options entry) m m') ∧
      ∀ root, readScript tree entry = .ok root → ∃ loaded, load tree options entry = .ok loaded ∧
        ∀ m, Passes tree options entry root m → ReflTransGen (Advance (siteOf tree options entry)) m ⟨loaded.state, [], []⟩) ∧
      ∀ t, buildTree tree options = .ok t → ∃ root, readScript tree (entryPath tree options) = .ok root ∧
        LoadsOnce tree options (entryPath tree options) root t.scripts := by
  refine ⟨fun entry => ⟨wellFounded_advance _, fun root read => ⟨_, load_of_read read, fun m now => now.reaches_run⟩⟩, ?_⟩
  intro t built
  obtain ⟨loaded, _, loads, rfl⟩ := buildTree_eq_ok built
  cases read : readScript tree (entryPath tree options) with
  | error fault =>
    rw [load_of_broken read] at loads
    cases loads
  | ok root =>
    rw [load_of_read read] at loads
    cases loads
    have last : Orderly tree options (entryPath tree options) root _ := Passes.orderly (reaches_run _ _ _) read
    refine ⟨root, rfl, last.first, last.distinct, last.named, fun p loaded q loaded' same => ?_⟩
    rcases last.normalize_eq (normalize_entryPath tree options) loaded with normal | wild
    · rcases last.normalize_eq (normalize_entryPath tree options) loaded' with normal' | wild
      · exact .inl (normal ▸ normal' ▸ same)
      · exact .inr (.inr wild)
    · exact .inr (.inl wild)

namespace Sample

/-- A script that imports the script `a.proj` of a directory `w` below one that the wildcard stands for. -/
def roundabout : FileTree :=
  ⟨.dir [("w", .dir [("a.proj", .file (Text.encode
    "<Project><Import Project=\".?/w/a.proj\"/><Target Name=\"Build\"/></Project>"))])], ["w"]⟩

def plain : Options := ⟨⟨"a.proj"⟩, [], [], ⟨[]⟩, none, none, false, "17.0"⟩

/-- The script of the sample, and the path that the wildcard finds for it. -/
def spellings : List Path := [⟨"/w/a.proj"⟩, ⟨"/w/../w/a.proj"⟩]

theorem load_roundabout : (loadWithin 12 roundabout plain (entryPath roundabout plain)).map (fun (root, s) =>
      (s.scripts, selectRoot [] (root.attribute? "DefaultTargets") s.bag (tableOf (targetSite roundabout ⟨"/w/a.proj"⟩) s),
        ((tableOf (targetSite roundabout ⟨"/w/a.proj"⟩) s).get? (key "Build")).isSome)) =
    some (spellings, some ("Build".toList : Text), true) := by
  decide +kernel

theorem buildTree_roundabout : ∃ t, buildTree roundabout plain = .ok t ∧ t.scripts = spellings := by
  obtain ⟨⟨root, s⟩, loads, computed⟩ := Option.map_eq_some_iff.1 load_roundabout
  simp only [Prod.mk.injEq] at computed
  obtain ⟨scripts, selected, found⟩ := computed
  obtain ⟨target, found⟩ := Option.isSome_iff_exists.1 found
  obtain ⟨read, loads⟩ := load_of_loadWithin loads
  exact ⟨_, buildTree_of_load (by decide +kernel) rfl loads selected found, scripts⟩

end Sample

/-- A wildcard goes up and down again, and finds the script that it stands in by another path: the file is loaded twice. -/
theorem roundabout_twice : ∃ t, buildTree Sample.roundabout Sample.plain = .ok t ∧
    t.scripts = [⟨"/w/a.proj"⟩, ⟨"/w/../w/a.proj"⟩] ∧ ¬ t.scripts.Pairwise fun p q => p.normalize ≠ q.normalize := by
  obtain ⟨t, built, scripts⟩ := Sample.buildTree_roundabout
  refine ⟨t, built, scripts, ?_⟩
  rw [scripts]
  decide +kernel

/-- The second path of that script is there because the wildcard names it. -/
theorem loadsOnce_roundabout : ∃ t root, buildTree Sample.roundabout Sample.plain = .ok t ∧
    LoadsOnce Sample.roundabout Sample.plain ⟨"/w/a.proj"⟩ root t.scripts ∧ t.scripts.length = 2 := by
  obtain ⟨t, built, scripts⟩ := Sample.buildTree_roundabout
  have entry : entryPath Sample.roundabout Sample.plain = ⟨"/w/a.proj"⟩ := by decide +kernel
  obtain ⟨root, _, once⟩ := (buildTree_loadsOnce Sample.roundabout Sample.plain).2 t built
  rw [entry] at once
  exact ⟨t, root, built, once, by rw [scripts]; rfl⟩

end SolutionGraph.Target
