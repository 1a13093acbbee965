import SolutionGraph.Proofs.OrderedMap
import SolutionGraph.Proofs.Target.Loading
import SolutionGraph.Target.Tree

/-!
# Putting targets together

What `assemble` makes of loaded targets, part by part (`assemble_eq`): the table (`tableOf`), the root, and the tree of
that root (`treeOf`).

The order and the search do not look at the scripts of targets (`runOrder_anonymous`, `search_anonymous`). So loadings
whose targets differ in their scripts only have the same outcome, up to those scripts and to warnings that name a script
themselves (`assemble_alike`).
-/

namespace SolutionGraph

/-- Whether a warning is about the text of a script. -/
def Warning.isOfScript : Warning → Bool
  | .parse _ _ | .condition _ _ _ => true
  | _ => false

/-- The target without the script that declares it. -/
def Target.anonymous (t : Target) : Target := { t with script := ⟨[]⟩ }

namespace Target

/-! ## Targets without their scripts -/

/-- The table without the scripts that declare targets. -/
def Table.anonymous (table : Table) : Table := table.mapValues Target.anonymous

section Anonymous

variable {table : Table}

theorem get?_anonymous (table : Table) (k : Text) : table.anonymous.get? k = (table.get? k).map Target.anonymous :=
  OrderedMap.get?_mapValues _ k

theorem keys_anonymous (table : Table) : table.anonymous.keys = table.keys := OrderedMap.keys_mapValues _ table

theorem hooks_anonymous (names : Target → List Text) (same : ∀ t : Target, names t.anonymous = names t) (table : Table)
    (anchor : Text) : hooks names table.anonymous anchor = hooks names table anchor := by
  rw [hooks, Table.anonymous, OrderedMap.mapValues, List.flatMap_map, hooks]
  simp only [same]

theorem orderFrom_anonymous (table : Table) (seen : List Text) (tasks : List OrderTask) :
    orderFrom table.anonymous seen tasks = orderFrom table seen tasks := by
  fun_induction orderFrom table seen tasks with
  | case1 => rw [orderFrom]
  | case2 seen k rest ih => rw [orderFrom, ih]
  | case3 seen k rest missing ih => rw [orderFrom, get?_anonymous, missing]; exact ih
  | case4 seen k rest t found new ih =>
    rw [orderFrom, get?_anonymous, found]
    simp only [Option.map_some, keys_anonymous]
    rw [if_pos new, hooksBefore, hooksAfter, hooks_anonymous _ fun _ => rfl, hooks_anonymous _ fun _ => rfl]
    exact ih
  | case5 seen k rest t found old ih =>
    rw [orderFrom, get?_anonymous, found]
    simp only [Option.map_some, keys_anonymous]
    rw [if_neg old]
    exact ih

theorem runOrder_anonymous (table : Table) (root : Text) : runOrder table.anonymous root = runOrder table root :=
  orderFrom_anonymous table [] _

theorem prerequisiteTasks_anonymous (table : Table) (t : Target) :
    prerequisiteTasks table.anonymous t.anonymous = prerequisiteTasks table t := by
  unfold prerequisiteTasks Table.anonymous
  simp only [OrderedMap.contains_mapValues]
  rfl

theorem searchFrom_anonymous (table : Table) (seen opened : List Text) (report : SearchReport) (tasks : List SearchTask) :
    searchFrom table.anonymous seen opened report tasks = searchFrom table seen opened report tasks := by
  fun_induction searchFrom table seen opened report tasks with
  | case1 => rw [searchFrom]
  | case2 seen opened report rest ih => rw [searchFrom, ih]
  | case3 seen opened report target prerequisite rest ih => rw [searchFrom, ih]
  | case4 seen opened report k rest old _ ih => rw [searchFrom, if_pos old]; exact ih
  | case5 seen opened report k rest new known tasks ih =>
    rw [searchFrom, if_neg new, keys_anonymous, if_pos known, ← ih]
    simp only [tasks, get?_anonymous]
    cases table.get? k with
    | none => rfl
    | some t => simp only [Option.map_some, prerequisiteTasks_anonymous]
  | case6 seen opened report k rest new unknown ih =>
    conv_lhs => rw [searchFrom, if_neg new, keys_anonymous, if_neg unknown]
    exact ih

theorem search_anonymous (table : Table) (roots : List Text) : search table.anonymous roots = search table roots :=
  searchFrom_anonymous table [] [] _ _

theorem declaredName_anonymous (table : Table) : declaredName table.anonymous = declaredName table := by
  funext k
  rw [declaredName, get?_anonymous, declaredName]
  cases table.get? k <;> rfl

theorem name?_anonymous (table : Table) (k : Text) :
    (table.anonymous.get? k).map Target.name = (table.get? k).map Target.name := by
  rw [get?_anonymous, Option.map_map]
  rfl

theorem selectRoot_anonymous (requested : Text) (defaults : Option Text) (bag : PropertyBag) (table : Table) :
    selectRoot requested defaults bag table.anonymous = selectRoot requested defaults bag table := by
  have first : table.anonymous.values.head?.map Target.name = table.values.head?.map Target.name := by
    rw [OrderedMap.values, Table.anonymous, OrderedMap.mapValues, OrderedMap.values, List.map_map]
    cases table.entries <;> rfl
  unfold selectRoot
  rw [first]

end Anonymous

/-! ## Parts of a target tree -/

/-- The declared targets with their references replaced, and the warnings of their conditions. -/
def evaluated (site : Site) (s : Loading) : List (Target × Option Warning) := s.targets.map (ofDeclared site s.bag)

/-- The declared targets by key. -/
def tableOf (site : Site) (s : Loading) : Table := .ofList ((evaluated site s).map fun t => (key t.1.name, t.1))

/-- What was found wrong before the order is sought. -/
def noticed (site : Site) (s : Loading) : List Warning :=
  s.findings.map Finding.warning ++ (evaluated site s).filterMap Prod.snd

/-- The warning for a cycle. -/
def cycleWarning (table : Table) (report : SearchReport) : List Warning :=
  match report.cycle with
  | some members => [.targetCycle (members.map (declaredName table))]
  | none => []

/-- The target tree of a root. -/
def treeOf (site : Site) (entry : Path) (s : Loading) (root : Target) : TargetTree :=
  let table := tableOf site s
  let order := runOrder table (key root.name)
  let report := search table order
  { entryScript := entry
    root := root.name
    targets := table
    reachable := order.filterMap fun k => (table.get? k).map Target.name
    scripts := s.scripts
    warnings := noteMissing (noticed site s) report.missing ++ cycleWarning table report }

theorem assemble_eq (site : Site) (options : Options) (entry : Path) (loaded : Loaded) :
    assemble site options entry loaded =
      match selectRoot options.rootTarget loaded.defaultTargets loaded.state.bag (tableOf site loaded.state) with
      | none => .error (.noTargets entry)
      | some requested =>
        match (tableOf site loaded.state).get? (key requested) with
        | none => .error (.targetNotFound requested entry)
        | some root => .ok (treeOf site entry loaded.state root) := rfl

/-- Where conditions of targets are evaluated. -/
def targetSite (tree : FileTree) (entry : Path) : Site := ⟨tree, entry.parent?.getD ⟨[]⟩, []⟩

theorem exists_root_of_assemble {site : Site} {options : Options} {entry : Path} {loaded : Loaded} {t : TargetTree}
    (built : assemble site options entry loaded = .ok t) : ∃ root, t = treeOf site entry loaded.state root := by
  rw [assemble_eq] at built
  split at built
  · cases built
  · split at built
    · cases built
    · exact ⟨_, (Except.ok.inj built).symm⟩

theorem buildTree_eq_ok {tree : FileTree} {options : Options} {t : TargetTree} (built : buildTree tree options = .ok t) :
    ∃ loaded root, load tree options (entryPath tree options) = .ok loaded ∧
      t = treeOf (targetSite tree (entryPath tree options)) (entryPath tree options) loaded.state root := by
  unfold buildTree at built
  simp only at built
  split at built
  · split at built
    · cases built
    · rename_i loaded loads
      split at built
      · cases built
      · obtain ⟨root, tree⟩ := exists_root_of_assemble built
        exact ⟨loaded, root, loads, tree⟩
  · cases built

/-- The target tree, if loading passes over failed imports and there is a root. -/
theorem buildTree_of_load {tree : FileTree} {options : Options} {loaded : Loaded} {requested : Text} {root : Target}
    (file : tree.isFile (entryPath tree options)) (lenient : options.strictImports = false)
    (loads : load tree options (entryPath tree options) = .ok loaded)
    (selected : selectRoot options.rootTarget loaded.defaultTargets loaded.state.bag
      (tableOf (targetSite tree (entryPath tree options)) loaded.state) = some requested)
    (found : (tableOf (targetSite tree (entryPath tree options)) loaded.state).get? (key requested) = some root) :
    buildTree tree options =
      .ok (treeOf (targetSite tree (entryPath tree options)) (entryPath tree options) loaded.state root) := by
  unfold targetSite at selected found ⊢
  unfold buildTree
  simp only [file, loads, lenient, if_true, Bool.false_eq_true, if_false, assemble_eq, selected, found]

/-! ## Equal outcomes -/

/-- Two target trees say the same, up to scripts and what is wrong with their texts. -/
structure SameTree (t t' : TargetTree) : Prop where
  entryScript : t.entryScript = t'.entryScript
  root : t.root = t'.root
  reachable : t.reachable = t'.reachable
  /-- The names, prerequisites, hooks, conditions and whether they hold. -/
  targets : t.targets.anonymous = t'.targets.anonymous
  warnings : (t.warnings.filter fun w => !w.isOfScript) = t'.warnings.filter fun w => !w.isOfScript

/-- Two builds end with the same error, or with target trees that say the same. -/
inductive SameOutcome : Except TargetError TargetTree → Except TargetError TargetTree → Prop
  | error (e : TargetError) : SameOutcome (.error e) (.error e)
  | ok {t t' : TargetTree} (same : SameTree t t') : SameOutcome (.ok t) (.ok t')

/-- The declared target without the script that declares it. -/
def Declared.anonymous (d : Declared) : Declared := { d with script := ⟨[]⟩ }

theorem filter_noteMissing (warnings : List Warning) (missing : List (Text × Text)) :
    ((noteMissing warnings missing).filter fun w => !w.isOfScript) =
      noteMissing (warnings.filter fun w => !w.isOfScript) missing := by
  unfold noteMissing
  induction missing generalizing warnings with
  | nil => rfl
  | cons pair missing ih => rw [List.foldl_cons, ih, filter_insertNew rfl, List.foldl_cons]

theorem isOfScript_of_check {site : Condition.Site} {bag : PropertyBag} {text? : Option Text} {w : Warning}
    (told : (site.check bag text?).2 = some w) : w.isOfScript = true := by
  unfold Condition.Site.check at told
  split at told
  · cases told
  · split at told
    · cases told
    · cases told
      rfl

section Alike

variable {site site' : Site} {s s' : Loading}

theorem tableOf_alike (expand : ∀ t, s.bag.expand t = s'.bag.expand t)
    (check : ∀ path text?, ((⟨site.tree, site.projectDir, path⟩ : Condition.Site).check s.bag text?).1 =
      ((⟨site'.tree, site'.projectDir, path⟩ : Condition.Site).check s'.bag text?).1)
    (targets : s.targets.map Declared.anonymous = s'.targets.map Declared.anonymous) :
    (tableOf site s).anonymous = (tableOf site' s').anonymous := by
  have entries (site : Site) (s : Loading) : (tableOf site s).anonymous =
      .ofList ((s.targets.map Declared.anonymous).map fun d => (key d.name, (ofDeclared site s.bag d).1.anonymous)) := by
    rw [tableOf, Table.anonymous, OrderedMap.ofList_mapValues, evaluated, List.map_map, List.map_map, List.map_map]
    congr 2
    funext d
    simp only [Function.comp, ofDeclared, Target.anonymous, Declared.anonymous, Prod.mk.injEq, Target.mk.injEq,
      true_and]
    exact Condition.Site.check_fst site.tree site.projectDir d.script ⟨[]⟩ s.bag d.condition
  have names : expandNames s.bag = expandNames s'.bag := by
    funext raw
    rw [expandNames, expand, expandNames]
  rw [entries, entries, targets]
  simp only [ofDeclared, names, Target.anonymous, check]

theorem filter_noticed (site : Site) (s : Loading) : ((noticed site s).filter fun w => !w.isOfScript) =
    (s.findings.map Finding.warning).filter fun w => !w.isOfScript := by
  have none : ((evaluated site s).filterMap Prod.snd).filter (fun w => !w.isOfScript) = [] := by
    refine List.filter_eq_nil_iff.2 fun w mem => ?_
    obtain ⟨t, declared, told⟩ := List.mem_filterMap.1 mem
    obtain ⟨d, _, rfl⟩ := List.mem_map.1 declared
    have ofScript : w.isOfScript = true := isOfScript_of_check told
    simp [ofScript]
  rw [noticed, List.filter_append, none, List.append_nil]

theorem treeOf_alike {entry : Path} {root root' : Target}
    (tables : (tableOf site s).anonymous = (tableOf site' s').anonymous)
    (findings : ((s.findings.map Finding.warning).filter fun w => !w.isOfScript) =
      (s'.findings.map Finding.warning).filter fun w => !w.isOfScript)
    (roots : root.name = root'.name) : SameTree (treeOf site entry s root) (treeOf site' entry s' root') := by
  have order : runOrder (tableOf site s) (key root.name) = runOrder (tableOf site' s') (key root'.name) := by
    rw [← runOrder_anonymous, tables, runOrder_anonymous, roots]
  have report : search (tableOf site s) (runOrder (tableOf site s) (key root.name)) =
      search (tableOf site' s') (runOrder (tableOf site' s') (key root'.name)) := by
    rw [order, ← search_anonymous, tables, search_anonymous]
  have names (k : Text) : ((tableOf site s).get? k).map Target.name = ((tableOf site' s').get? k).map Target.name := by
    rw [← name?_anonymous, tables, name?_anonymous]
  have declared : declaredName (tableOf site s) = declaredName (tableOf site' s') := by
    rw [← declaredName_anonymous, tables, declaredName_anonymous]
  refine ⟨rfl, roots, ?_, tables, ?_⟩
  · simp only [treeOf, order, names]
  · simp only [treeOf, List.filter_append, filter_noteMissing, filter_noticed, findings, report, cycleWarning, declared]

theorem assemble_alike {options : Options} {entry : Path} {defaults : Option Text}
    (expand : ∀ t, s.bag.expand t = s'.bag.expand t) (tables : (tableOf site s).anonymous = (tableOf site' s').anonymous)
    (findings : ((s.findings.map Finding.warning).filter fun w => !w.isOfScript) =
      (s'.findings.map Finding.warning).filter fun w => !w.isOfScript) :
    SameOutcome (assemble site options entry ⟨s, defaults⟩) (assemble site' options entry ⟨s', defaults⟩) := by
  have selected : selectRoot options.rootTarget defaults s.bag (tableOf site s) =
      selectRoot options.rootTarget defaults s'.bag (tableOf site' s') := by
    rw [← selectRoot_anonymous, tables, selectRoot_anonymous]
    unfold selectRoot expandNames
    simp only [expand]
  rw [assemble_eq, assemble_eq, selected]
  cases selectRoot options.rootTarget defaults s'.bag (tableOf site' s') with
  | none => exact .error _
  | some requested =>
    have roots : ((tableOf site s).get? (key requested)).map Target.anonymous =
        ((tableOf site' s').get? (key requested)).map Target.anonymous := by
      rw [← get?_anonymous, tables, get?_anonymous]
    cases found : (tableOf site s).get? (key requested) with
    | none =>
      rw [found, Option.map_none, eq_comm, Option.map_eq_none_iff] at roots
      simp only [found, roots]
      exact .error _
    | some root =>
      rw [found, Option.map_some, eq_comm, Option.map_eq_some_iff] at roots
      obtain ⟨root', found', same⟩ := roots
      simp only [found, found']
      exact .ok (treeOf_alike tables findings (congrArg Target.name same).symm)

end Alike

end Target

end SolutionGraph
