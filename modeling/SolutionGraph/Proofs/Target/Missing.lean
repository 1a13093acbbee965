import SolutionGraph.Proofs.Target.Assembly
import SolutionGraph.Proofs.Target.Cycle
import SolutionGraph.Proofs.Target.Import
import SolutionGraph.Proofs.Target.Strictness

/-!
# Which prerequisites are told to be missing

The order of a build comes from a walk that follows hooks, and the missing prerequisites from a search that does not, but
starts from every target that runs.

* **the search** tells the undeclared prerequisites of what it has seen: those that are told and those that are left to
  tell are the ones of the seen targets (`Gathered`), and in the end the seen targets are those that run
  (`missing_perm`);
* **the table** has each target under the key of its name (`exists_declared_of_get?`), so no two targets have the same
  missing prerequisite to tell (`nodup_missing`), and a warning for each one is put in (`filter_warnings_treeOf`);
* **loading** warns of nothing of the kind (`isElsewhere_of_load`).

So the warnings are as exact as `TargetTree.TellsMissing` says (`buildTree_tellsMissing`).
-/

namespace SolutionGraph

/-- Whether a warning is about a prerequisite that is not declared. -/
def Warning.isMissingTarget : Warning → Bool
  | .missingTarget _ _ => true
  | _ => false

namespace Target

open Markup (Element)
open Relation (ReflTransGen TransGen)

/-! ## What the search gathers -/

/-- The prerequisites that a target follows and that are not declared, with its name. -/
def undeclared (table : Table) (t : Target) : List (Text × Text) :=
  if t.enabled then (t.prerequisites.filter fun p => !table.contains (key p)).map fun p => (t.name, p) else []

/-- The undeclared prerequisites of the target of a key. -/
def undeclaredAt (table : Table) (k : Text) : List (Text × Text) := ((table.get? k).map (undeclared table)).getD []

/-- What a step of the search tells. -/
def SearchTask.missing? : SearchTask → Option (Text × Text)
  | .missing target prerequisite => some (target, prerequisite)
  | _ => none

theorem filterMap_tasksOf (table : Table) (k : Text) :
    (tasksOf table k).filterMap SearchTask.missing? = undeclaredAt table k := by
  unfold tasksOf undeclaredAt
  cases table.get? k with
  | none => rfl
  | some t =>
    simp only [Option.map_some, Option.getD_some, prerequisiteTasks, undeclared]
    split
    · rw [List.filterMap_map]
      induction t.prerequisites with
      | nil => rfl
      | cons p rest ih =>
        cases declared : table.contains (key p) <;> simp_all [SearchTask.missing?]
    · rfl

/-- What is true of a search at any time. -/
structure Gathered (table : Table) (roots : List Text) (s : SearchState) : Prop where
  /-- Nothing is seen twice. -/
  nodup : s.seen.Nodup
  /-- What was seen is reached from the roots. -/
  reached : ∀ k ∈ s.seen, Required table roots k
  /-- What is told, and what is left to tell, are the undeclared prerequisites of what was seen. -/
  perm : (s.report.missing ++ s.tasks.filterMap SearchTask.missing?).Perm (s.seen.flatMap (undeclaredAt table))

section Searching

variable {table : Table} {roots : List Text} {root : Text}

theorem gathered_start (table : Table) (roots : List Text) : Gathered table roots ⟨[], [], ⟨none, []⟩, roots.map .enter⟩ where
  nodup := .nil
  reached := nofun
  perm := by
    simp [SearchTask.missing?, Function.comp_def]

/-- One step tells what it takes off the list, or puts on the list what it sees. -/
theorem Gathered.step {s s' : SearchState} (h : Gathered table roots s) (traced : Traced table roots s)
    (step : SearchStep table s s') : Gathered table roots s' := by
  cases step with
  | leave => exact ⟨h.nodup, h.reached, h.perm⟩
  | missing => exact ⟨h.nodup, h.reached, by simpa [SearchTask.missing?] using h.perm⟩
  | close => exact ⟨h.nodup, h.reached, h.perm⟩
  | pass => exact ⟨h.nodup, h.reached, h.perm⟩
  | @enter seen opened report k rest new =>
    refine ⟨List.nodup_cons.2 ⟨new, h.nodup⟩, List.forall_mem_cons.2 ⟨traced.ahead k List.mem_cons_self, h.reached⟩, ?_⟩
    have told : (report.missing ++ rest.filterMap SearchTask.missing?).Perm (seen.flatMap (undeclaredAt table)) := h.perm
    have left : (tasksOf table k ++ .leave :: rest).filterMap SearchTask.missing? =
        undeclaredAt table k ++ rest.filterMap SearchTask.missing? := by
      rw [List.filterMap_append, filterMap_tasksOf]
      rfl
    rw [left, List.flatMap_cons]
    exact (List.perm_append_comm_assoc _ _ _).trans (told.append_left _)

theorem Gathered.run {s s' : SearchState} (h : Gathered table roots s) (traced : Traced table roots s)
    (search : ReflTransGen (SearchStep table) s s') : Gathered table roots s' := by
  induction search with
  | refl => exact h
  | tail search step ih => exact ih.step (traced.run search) step

theorem exists_sound_runOrder (table : Table) (root : Text) :
    ∃ seen, Sound table root ⟨runOrder table root, seen, []⟩ ∧ seen.Perm (runOrder table root) := by
  obtain ⟨seen, walk⟩ := exists_walk_runOrder table root
  have sound := (sound_start table root).run walk
  exact ⟨seen, sound, sound.perm_done⟩

theorem nodup_runOrder (table : Table) (root : Text) : (runOrder table root).Nodup := by
  obtain ⟨seen, sound, perm⟩ := exists_sound_runOrder table root
  exact perm.nodup_iff.1 sound.nodup

/-- What a target that runs requires runs too. -/
theorem mem_runOrder_of_requires {k p : Text} (runs : k ∈ runOrder table root) (requires : Requires table k p) :
    p ∈ runOrder table root := by
  obtain ⟨seen, sound, perm⟩ := exists_sound_runOrder table root
  have entered : k ∈ seen := perm.mem_iff.2 runs
  have leads : Leads table k p := ⟨sound.declared k entered, .inl (.inl requires)⟩
  exact perm.mem_iff.1 ((sound.closed k entered p leads).resolve_right List.not_mem_nil)

theorem mem_runOrder_of_reaches {k p : Text} (runs : k ∈ runOrder table root)
    (path : ReflTransGen (Requires table) k p) : p ∈ runOrder table root := by
  induction path with
  | refl => exact runs
  | tail _ requires ih => exact mem_runOrder_of_requires ih requires

/-- **The search from what runs tells the undeclared prerequisites of what runs**: it sees nothing else. -/
theorem missing_perm (table : Table) (root : Text) :
    (search table (runOrder table root)).missing.Perm ((runOrder table root).flatMap (undeclaredAt table)) := by
  obtain ⟨seen, opened, steps⟩ := exists_search_search table (runOrder table root)
  have traced := traced_start table (runOrder table root)
  have gathered := (gathered_start table (runOrder table root)).run traced steps
  have perm : (search table (runOrder table root)).missing.Perm (seen.flatMap (undeclaredAt table)) := by
    simpa using gathered.perm
  refine perm.trans (List.Perm.flatMap_right _ ?_)
  rw [List.perm_ext_iff_of_nodup gathered.nodup (nodup_runOrder table root)]
  intro k
  constructor
  · intro mem
    obtain ⟨r, runs, path⟩ := gathered.reached k mem
    exact mem_runOrder_of_reaches runs path
  · intro runs
    have noticed : SearchState.Noticed ⟨[], [], ⟨none, []⟩, (runOrder table root).map .enter⟩ k :=
      .inr (List.mem_map_of_mem runs)
    exact (noticed.run steps).resolve_right List.not_mem_nil

end Searching

/-! ## Targets under their names -/

section Tables

variable {site : Site} {s : Loading} {k : Text} {t : Target}

/-- Names that are put in one after the other differ by more than case. -/
theorem pairwise_foldl_insertName {names : List Text} (more : List Text)
    (apart : names.Pairwise fun p q => Text.eqIgnoringCase p q = false) :
    (more.foldl insertName names).Pairwise fun p q => Text.eqIgnoringCase p q = false := by
  induction more generalizing names with
  | nil => exact apart
  | cons name more ih =>
    refine ih ?_
    unfold insertName
    split
    · exact apart
    · rename_i new
      rw [Bool.not_eq_true, List.any_eq_false] at new
      rw [List.pairwise_append]
      refine ⟨apart, List.pairwise_singleton _ _, fun p mem q own => ?_⟩
      rw [List.mem_singleton.1 own]
      simpa using new p mem

theorem exists_declared_of_get? (found : (tableOf site s).get? k = some t) :
    ∃ d ∈ s.targets, t = (ofDeclared site s.bag d).1 ∧ k = key t.name := by
  have mem := OrderedMap.mem_of_mem_entries_ofList (OrderedMap.mem_entries_of_get?_eq_some found)
  simp only [evaluated, List.map_map, List.mem_map, Function.comp] at mem
  obtain ⟨d, declared, same⟩ := mem
  cases same
  exact ⟨d, declared, rfl, rfl⟩

theorem keys_tableOf (site : Site) (s : Loading) : (tableOf site s).keys = (s.targets.map fun d => key d.name).eraseDups := by
  rw [tableOf, OrderedMap.keys_ofList, evaluated, List.map_map, List.map_map]
  rfl

theorem contains_tableOf (site : Site) (s : Loading) (p : Text) :
    (tableOf site s).contains (key p) = s.targets.any fun d => Text.eqIgnoringCase d.name p := by
  rw [Bool.eq_iff_iff, OrderedMap.contains_iff, keys_tableOf, List.mem_eraseDups, List.mem_map, List.any_eq_true]
  refine exists_congr fun d => and_congr_right fun _ => ?_
  rw [Text.eqIgnoringCase, beq_iff_eq, key, key]

theorem pairwise_prerequisites (found : (tableOf site s).get? k = some t) :
    t.prerequisites.Pairwise fun p q => Text.eqIgnoringCase p q = false := by
  obtain ⟨d, _, rfl, _⟩ := exists_declared_of_get? found
  exact pairwise_foldl_insertName _ .nil

theorem nodup_undeclaredAt (site : Site) (s : Loading) (k : Text) : (undeclaredAt (tableOf site s) k).Nodup := by
  unfold undeclaredAt
  cases found : (tableOf site s).get? k with
  | none => exact .nil
  | some t =>
    have nodup : t.prerequisites.Nodup := by
      refine (pairwise_prerequisites found).imp fun differ => ?_
      rintro rfl
      simp [Text.eqIgnoringCase] at differ
    simp only [Option.map_some, Option.getD_some, undeclared]
    split
    · exact (nodup.filter _).map fun _ _ same => (Prod.mk.inj same).2
    · exact .nil

theorem fst_of_mem_undeclaredAt {pair : Text × Text} (mem : pair ∈ undeclaredAt (tableOf site s) k) :
    key pair.1 = k := by
  unfold undeclaredAt at mem
  cases found : (tableOf site s).get? k with
  | none =>
    rw [found] at mem
    cases mem
  | some t =>
    obtain ⟨_, _, _, named⟩ := exists_declared_of_get? found
    simp only [found, Option.map_some, Option.getD_some, undeclared] at mem
    split at mem
    · obtain ⟨p, _, rfl⟩ := List.mem_map.1 mem
      exact named.symm
    · cases mem

/-- **No two targets that run miss the same**, as they have different names. -/
theorem nodup_missing (site : Site) (s : Loading) (root : Text) :
    (search (tableOf site s) (runOrder (tableOf site s) root)).missing.Nodup := by
  rw [(missing_perm (tableOf site s) root).nodup_iff, List.nodup_flatMap]
  refine ⟨fun k _ => nodup_undeclaredAt site s k, (nodup_runOrder _ _).imp fun {k k'} differ pair mem mem' => ?_⟩
  exact differ ((fst_of_mem_undeclaredAt mem).symm.trans (fst_of_mem_undeclaredAt mem'))

end Tables

/-! ## Loading warns of nothing missing -/

/-- A finding is about something else than a missing target. -/
def IsElsewhere (f : Finding) : Prop := f.warning.isMissingTarget = false

section Findings

variable {site : Site} {s : Loading}

theorem adds_check (site : Site) (s : Loading) (script : Path) (e : Element) :
    Adds IsElsewhere s (s.check site script e).2 := by
  unfold Loading.check
  simp only
  cases told : ((⟨site.tree, site.projectDir, script⟩ : Condition.Site).check s.bag (e.attribute? "Condition")).2 with
  | none => exact .refl s
  | some w =>
    have ofScript := isOfScript_of_check told
    unfold Loading.noteOnce
    simp only
    split
    · exact .refl s
    · refine .note s ?_
      cases w with
      | missingTarget => cases ofScript
      | _ => rfl

theorem adds_selectBranch (site : Site) (script : Path) (otherwise : Option Element) (s : Loading) (es : List Element) :
    Adds IsElsewhere s (selectBranch site script otherwise s es).2 := by
  induction es generalizing otherwise s with
  | nil => exact .refl s
  | cons e es ih =>
    unfold selectBranch
    split
    · have checked := adds_check site s script e
      simp only
      split
      · exact checked
      · exact checked.trans (ih otherwise _)
    · split
      · exact ih (some e) s
      · exact ih otherwise s

theorem adds_visitElement_elsewhere (site : Site) (s : Loading) (script : Path) (e : Element) :
    Adds IsElsewhere s (visitElement site s script e).1 := by
  have checked := adds_check site s script e
  unfold visitElement
  split
  · simp only
    split
    · exact checked.trans (adds_applyProperties (fun s e => adds_check site s script e) _ e)
    · exact checked
  split
  · simp only
    split
    · split
      · exact checked
      · exact checked.trans (.note _ rfl)
    · exact checked
  split
  · exact checked
  split
  · exact adds_selectBranch site script none s e.elements
  split
  · unfold Loading.declare
    simp only
    split
    · exact .note s rfl
    · exact .refl s
  · exact .refl s

/-- Whatever is loaded, no missing target is found. -/
theorem isElsewhere_of_load {tree : FileTree} {options : Options} {entry : Path} {loaded : Loaded}
    (loads : load tree options entry = .ok loaded) : ∀ f ∈ loaded.state.findings, IsElsewhere f :=
  forall_findings_of_load loads fun tasks => adds_run (adds_visitElement_elsewhere _) (fun _ _ _ => rfl) _ tasks

end Findings

/-! ## Warnings -/

/-- The warnings about prerequisites that an enabled target has and that none of the given targets is. -/
def lacks (declared : List Declared) (t : Target) : List Warning :=
  if t.enabled then
    (t.prerequisites.filter fun p => !declared.any fun d => Text.eqIgnoringCase d.name p).map (.missingTarget t.name)
  else []

end Target

open Target

/-- A target tree tells exactly which prerequisites are missing among the declared targets. -/
structure TargetTree.TellsMissing (t : TargetTree) (declared : List Declared) : Prop where
  /-- There is one warning for each target that runs and is enabled, and each of its prerequisites that is not declared. -/
  told : (t.warnings.filter Warning.isMissingTarget).Perm (t.reachableTargets.flatMap (lacks declared))
  /-- No warning is repeated. -/
  nodup : (t.warnings.filter Warning.isMissingTarget).Nodup
  /-- Each target runs once. -/
  once : t.reachableTargets.Nodup
  /-- The prerequisites of a target differ by more than case. -/
  apart : ∀ target ∈ t.reachableTargets, target.prerequisites.Pairwise fun p q => Text.eqIgnoringCase p q = false
  /-- A warning names a prerequisite, not only a hook, and not one that is declared in some case. -/
  prerequisite : ∀ name p, .missingTarget name p ∈ t.warnings →
    (∃ target ∈ t.reachableTargets, target.name = name ∧ p ∈ target.prerequisites) ∧
      ∀ d ∈ declared, Text.eqIgnoringCase d.name p = false
  /-- There is no warning for a target that is not enabled or does not run. -/
  silent : ∀ target ∈ t.targets.values, target.enabled = false ∨ target ∉ t.reachableTargets →
    ∀ p, .missingTarget target.name p ∉ t.warnings

namespace Target

section Warnings

variable {site : Site} {s : Loading} {entry : Path} {root : Target}

theorem reachableTargets_treeOf (site : Site) (entry : Path) (s : Loading) (root : Target) :
    (treeOf site entry s root).reachableTargets =
      (runOrder (tableOf site s) (key root.name)).filterMap (tableOf site s).get? := by
  have again (k : Text) : ((tableOf site s).get? k).map Target.name >>= (treeOf site entry s root).get? =
      (tableOf site s).get? k := by
    cases found : (tableOf site s).get? k with
    | none => rfl
    | some t =>
      obtain ⟨_, _, _, named⟩ := exists_declared_of_get? found
      rw [named] at found
      exact found
  rw [TargetTree.reachableTargets, treeOf, List.filterMap_filterMap]
  exact List.filterMap_congr fun k _ => again k

/-- Before the search nothing is missing. -/
theorem isMissingTarget_noticed (elsewhere : ∀ f ∈ s.findings, IsElsewhere f) :
    ∀ w ∈ noticed site s, w.isMissingTarget = false := by
  intro w mem
  rcases List.mem_append.1 mem with mem | mem
  · obtain ⟨f, found, rfl⟩ := List.mem_map.1 mem
    exact elsewhere f found
  · obtain ⟨t, declared, told⟩ := List.mem_filterMap.1 mem
    obtain ⟨d, _, rfl⟩ := List.mem_map.1 declared
    have ofScript : w.isOfScript = true := isOfScript_of_check told
    cases w with
    | missingTarget => cases ofScript
    | _ => rfl

theorem injective_missingTarget :
    Function.Injective fun pair : Text × Text => Warning.missingTarget pair.1 pair.2 := by
  rintro ⟨_, _⟩ ⟨_, _⟩ same
  cases same
  rfl

/-- What the search tells is put in as it is. -/
theorem filter_warnings_treeOf (elsewhere : ∀ f ∈ s.findings, IsElsewhere f) :
    (treeOf site entry s root).warnings.filter Warning.isMissingTarget =
      (search (tableOf site s) (runOrder (tableOf site s) (key root.name))).missing.map
        fun pair => .missingTarget pair.1 pair.2 := by
  have nodup := nodup_missing site s (key root.name)
  generalize hreport : search (tableOf site s) (runOrder (tableOf site s) (key root.name)) = report at nodup ⊢
  have before : ∀ w ∈ noticed site s, w.isMissingTarget = false := isMissingTarget_noticed elsewhere
  have told : noteMissing (noticed site s) report.missing =
      noticed site s ++ report.missing.map fun pair => Warning.missingTarget pair.1 pair.2 := by
    rw [noteMissing_eq_foldl]
    refine foldl_insertNew_of_pairwise ?_ fun w mem => ?_
    · exact (nodup.map injective_missingTarget).imp fun differ => beq_eq_false_iff_ne.2 (Ne.symm differ)
    · obtain ⟨pair, _, rfl⟩ := List.mem_map.1 mem
      refine Bool.eq_false_iff.2 fun old => ?_
      cases before _ (List.contains_iff_mem.1 old)
  have cycle : (cycleWarning (tableOf site s) report).filter Warning.isMissingTarget = [] := by
    unfold cycleWarning
    split <;> rfl
  have missing : (report.missing.map fun pair => Warning.missingTarget pair.1 pair.2).filter Warning.isMissingTarget =
      report.missing.map fun pair => Warning.missingTarget pair.1 pair.2 := by
    refine List.filter_eq_self.2 fun w mem => ?_
    obtain ⟨pair, _, rfl⟩ := List.mem_map.1 mem
    rfl
  have nothing : (noticed site s).filter Warning.isMissingTarget = [] :=
    List.filter_eq_nil_iff.2 fun w mem => Bool.eq_false_iff.1 (before w mem)
  simp only [treeOf, hreport, told, List.filter_append, cycle, missing, nothing, List.nil_append, List.append_nil]

theorem map_undeclared (site : Site) (s : Loading) (t : Target) :
    ((undeclared (tableOf site s) t).map fun pair => Warning.missingTarget pair.1 pair.2) = lacks s.targets t := by
  unfold undeclared lacks
  split
  · simp only [contains_tableOf, List.map_map]
    rfl
  · rfl

/-- The warnings, target by target. -/
theorem perm_warnings_treeOf (elsewhere : ∀ f ∈ s.findings, IsElsewhere f) :
    ((treeOf site entry s root).warnings.filter Warning.isMissingTarget).Perm
      ((treeOf site entry s root).reachableTargets.flatMap (lacks s.targets)) := by
  rw [filter_warnings_treeOf elsewhere, reachableTargets_treeOf]
  refine ((missing_perm (tableOf site s) (key root.name)).map _).trans (List.Perm.of_eq ?_)
  rw [List.map_flatMap]
  induction runOrder (tableOf site s) (key root.name) with
  | nil => rfl
  | cons k rest ih =>
    rw [List.flatMap_cons, ih, List.filterMap_cons]
    unfold undeclaredAt
    cases (tableOf site s).get? k with
    | none => rfl
    | some t => simp only [Option.map_some, Option.getD_some, map_undeclared, List.flatMap_cons]

/-- A declared target is found under its name, which no other target has. -/
theorem eq_of_name_eq {t t' : Target} {k : Text} (mem : t ∈ (tableOf site s).values)
    (found : (tableOf site s).get? k = some t') (same : t'.name = t.name) : t' = t := by
  obtain ⟨⟨k', _⟩, entry, rfl⟩ := List.mem_map.1 mem
  have nodup : (tableOf site s).keys.Nodup := by
    rw [keys_tableOf, ← foldl_insertNew_nil]
    exact nodup_foldl_insertNew .nil
  have found' : (tableOf site s).get? k' = some _ := OrderedMap.get?_eq_some nodup entry
  obtain ⟨_, _, _, named⟩ := exists_declared_of_get? found
  obtain ⟨_, _, _, named'⟩ := exists_declared_of_get? found'
  rw [named, same, ← named', found'] at found
  exact (Option.some.inj found).symm

theorem exists_get?_of_mem_reachableTargets {t : Target} (runs : t ∈ (treeOf site entry s root).reachableTargets) :
    ∃ k, (tableOf site s).get? k = some t := by
  rw [reachableTargets_treeOf, List.mem_filterMap] at runs
  obtain ⟨k, _, found⟩ := runs
  exact ⟨k, found⟩

theorem nodup_reachableTargets_treeOf (site : Site) (entry : Path) (s : Loading) (root : Target) :
    (treeOf site entry s root).reachableTargets.Nodup := by
  rw [reachableTargets_treeOf]
  refine (nodup_runOrder _ _).filterMap fun k k' t found found' => ?_
  obtain ⟨_, _, _, named⟩ := exists_declared_of_get? found
  obtain ⟨_, _, _, named'⟩ := exists_declared_of_get? found'
  rw [named, named']

theorem mem_lacks {declared : List Declared} {t : Target} {name p : Text} :
    .missingTarget name p ∈ lacks declared t ↔
      t.enabled ∧ t.name = name ∧ p ∈ t.prerequisites ∧ ∀ d ∈ declared, Text.eqIgnoringCase d.name p = false := by
  unfold lacks
  split
  · simp only [List.mem_map, List.mem_filter, Warning.missingTarget.injEq, Bool.not_eq_true', List.any_eq_false,
      Bool.not_eq_true]
    grind
  · simp_all

theorem mem_warnings_treeOf (elsewhere : ∀ f ∈ s.findings, IsElsewhere f) {name p : Text}
    (told : .missingTarget name p ∈ (treeOf site entry s root).warnings) :
    ∃ t ∈ (treeOf site entry s root).reachableTargets, t.enabled ∧ t.name = name ∧ p ∈ t.prerequisites ∧
      ∀ d ∈ s.targets, Text.eqIgnoringCase d.name p = false := by
  have among := (perm_warnings_treeOf elsewhere).mem_iff.1 (List.mem_filter.2 ⟨told, rfl⟩)
  obtain ⟨t, runs, mem⟩ := List.mem_flatMap.1 among
  exact ⟨t, runs, mem_lacks.1 mem⟩

theorem tellsMissing_treeOf (elsewhere : ∀ f ∈ s.findings, IsElsewhere f) :
    (treeOf site entry s root).TellsMissing s.targets where
  told := perm_warnings_treeOf elsewhere
  nodup := by
    rw [filter_warnings_treeOf elsewhere]
    exact (nodup_missing site s (key root.name)).map injective_missingTarget
  once := nodup_reachableTargets_treeOf site entry s root
  apart t runs := by
    obtain ⟨k, found⟩ := exists_get?_of_mem_reachableTargets runs
    exact pairwise_prerequisites found
  prerequisite name p told := by
    obtain ⟨t, runs, _, named, mem, undeclared⟩ := mem_warnings_treeOf elsewhere told
    exact ⟨⟨t, runs, named, mem⟩, undeclared⟩
  silent t declared idle p told := by
    obtain ⟨t', runs, enabled, named, _⟩ := mem_warnings_treeOf elsewhere told
    obtain ⟨k, found⟩ := exists_get?_of_mem_reachableTargets runs
    obtain rfl := eq_of_name_eq declared found named
    rcases idle with disabled | unreached
    · rw [disabled] at enabled
      cases enabled
    · exact unreached runs

end Warnings

/-- **Missing prerequisites are told exactly.** Every target tree warns once of each prerequisite of an enabled target
that runs, if no loaded script declares it in any case, and of nothing else. -/
theorem buildTree_tellsMissing {tree : FileTree} {options : Options} {t : TargetTree}
    (built : buildTree tree options = .ok t) :
    ∃ loaded, load tree options (entryPath tree options) = .ok loaded ∧ t.TellsMissing loaded.state.targets := by
  obtain ⟨loaded, root, loads, rfl⟩ := buildTree_eq_ok built
  exact ⟨loaded, loads, tellsMissing_treeOf (isElsewhere_of_load loads)⟩

namespace Sample

/-- `Build` misses `Gone`, which it names twice, and hooks itself to a target that does not exist. `Lint` is declared in
another case than it is named, and `Other` does not run. -/
def gappy : FileTree :=
  ⟨.dir [("w", .dir [("a.proj", .file (Text.encode
    "<Project>
      <Target Name=\"Build\" DependsOnTargets=\"Gone;LINT;gone\" BeforeTargets=\"Nowhere\"/>
      <Target Name=\"Lint\"/>
      <Target Name=\"Other\" DependsOnTargets=\"Away\"/>
    </Project>"))])], ["w"]⟩

/-- The targets with their prerequisites replaced. -/
def gappyTargets : List (Text × Target) :=
  [("build", ⟨"Build", ["Gone", "LINT"], ["Nowhere"], [], ⟨"/w/a.proj"⟩, none, true⟩),
    ("lint", ⟨"Lint", [], [], [], ⟨"/w/a.proj"⟩, none, true⟩),
    ("other", ⟨"Other", ["Away"], [], [], ⟨"/w/a.proj"⟩, none, true⟩)]

def gappyNames : List Text := ["Build", "Lint", "Other"]

theorem load_gappy : (loadWithin 12 gappy plain (entryPath gappy plain)).map (fun (root, s) =>
      ((tableOf (targetSite gappy (entryPath gappy plain)) s).entries, s.targets.map Declared.name,
        selectRoot [] (root.attribute? "DefaultTargets") s.bag (tableOf (targetSite gappy (entryPath gappy plain)) s))) =
    some (gappyTargets, gappyNames, some ("Build".toList : Text)) := by
  decide +kernel

theorem runOrder_gappy : runOrder ⟨gappyTargets⟩ (key "Build") = [key "Lint", key "Build"] := by
  cbv

/-- The targets that run, with the prerequisites that are missing. -/
theorem buildTree_gappy : ∃ t loaded, buildTree gappy plain = .ok t ∧
    load gappy plain (entryPath gappy plain) = .ok loaded ∧
    t.reachableTargets.flatMap (lacks loaded.state.targets) = [.missingTarget "Build" "Gone"] := by
  obtain ⟨⟨root, s⟩, loads, computed⟩ := Option.map_eq_some_iff.1 load_gappy
  simp only [Prod.mk.injEq] at computed
  obtain ⟨entries, names, selected⟩ := computed
  have table : tableOf (targetSite gappy (entryPath gappy plain)) s = ⟨gappyTargets⟩ := by
    rw [← entries]
  have found : (tableOf (targetSite gappy (entryPath gappy plain)) s).get? (key "Build") =
      some ⟨"Build", ["Gone", "LINT"], ["Nowhere"], [], ⟨"/w/a.proj"⟩, none, true⟩ := by
    rw [table]
    rfl
  obtain ⟨read, loads⟩ := load_of_loadWithin loads
  refine ⟨_, _, buildTree_of_load (by decide +kernel) rfl loads selected found, loads, ?_⟩
  have lacking : lacks s.targets = fun t => if t.enabled then
      (t.prerequisites.filter fun p => !gappyNames.any fun name => Text.eqIgnoringCase name p).map (.missingTarget t.name)
      else [] := by
    funext t
    rw [lacks, ← names]
    simp only [List.any_map, Function.comp_def]
  rw [reachableTargets_treeOf, table, runOrder_gappy, lacking]
  decide +kernel

end Sample

/-- In the sample, one prerequisite is missing, and it is told once. -/
theorem tellsMissing_gappy : ∃ t loaded, buildTree Sample.gappy Sample.plain = .ok t ∧
    load Sample.gappy Sample.plain (entryPath Sample.gappy Sample.plain) = .ok loaded ∧
    t.TellsMissing loaded.state.targets ∧ t.warnings.filter Warning.isMissingTarget = [.missingTarget "Build" "Gone"] := by
  obtain ⟨t, loaded, built, loads, missing⟩ := Sample.buildTree_gappy
  obtain ⟨loaded', loads', tells⟩ := buildTree_tellsMissing built
  obtain rfl : loaded = loaded' := Except.ok.inj (loads.symm.trans loads')
  have told := tells.told
  rw [missing, List.perm_singleton] at told
  exact ⟨t, loaded, built, loads, tells, told⟩

end Target

end SolutionGraph
