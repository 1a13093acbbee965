import SolutionGraph.Condition.Check
import SolutionGraph.Glob.Expand
import SolutionGraph.Markup.Reader
import SolutionGraph.Path.Openable
import SolutionGraph.Reach
import SolutionGraph.Target.Override

/-!
# Loading build scripts

A script is visited in document order, and an import is visited where it stands, so it sees the properties that are set
before it. Each script is loaded once. Targets are kept as written until loading is over.

Loading works off a list of tasks (`Task`): the elements of a script that are still to be visited, imports that are still to
be loaded, and the return to a script after an import. It ends because an import that is loaded leaves fewer paths that
have not been tried (`unseen`), and every other step leaves fewer elements or fewer tasks (`pendingWeight`).

Everything that is found wrong is a finding; an import that leads nowhere or to a broken script is an error if imports are
strict (`Finding.fatal?`).
-/

namespace SolutionGraph.Target

open Markup (Element)

/-- What is asked of a target tree. -/
structure Options where
  /-- The script to start from. -/
  entryScript : Path
  /-- The target to build; without one, the script decides. -/
  rootTarget : Text
  /-- Further directories for imports. -/
  searchPaths : List Path
  /-- Properties that scripts cannot change. -/
  overrides : Overrides
  /-- The platform, if it is given. -/
  platform : Option Text
  /-- The configuration, if it is given. -/
  configuration : Option Text
  /-- Whether an import that fails ends the loading. -/
  strictImports : Bool
  /-- The version of the tools. -/
  toolVersion : Text

/-- A target as a script declares it. -/
structure Declared where
  /-- The name. -/
  name : Text
  /-- The targets that it depends on, as written. -/
  dependsOn : Text
  /-- The targets that it runs before, as written. -/
  before : Text
  /-- The targets that it runs after, as written. -/
  after : Text
  /-- The targets that its tasks call, as written. -/
  calls : List Text
  /-- The condition, as written. -/
  condition : Option Text
  /-- The script. -/
  script : Path
  deriving DecidableEq, Repr

/-! ## Findings -/

/-- Something that is wrong with a script, and can be passed over. -/
inductive Finding where
  | noted (warning : Warning)
  | unresolvedImport (script : Path) (name : Text)
  | brokenImport (path : Path) (fault : ScriptFault)

namespace Finding

/-- The warning that a finding is worth. -/
def warning : Finding → Warning
  | .noted warning => warning
  | .unresolvedImport script name => .unresolvedImport script name
  | .brokenImport path fault => .parse path fault.message

/-- The error that a finding is if imports are strict. -/
def fatal? : Finding → Option TargetError
  | .noted _ => none
  | .unresolvedImport script name => some (.unresolvedImport script name)
  | .brokenImport path fault => some (.badScript path fault)

/-- The first error among the findings. -/
def firstFatal? (findings : List Finding) : Option TargetError := findings.findSome? fatal?

end Finding

/-! ## Scripts -/

/-- What stays the same while scripts are loaded. -/
structure Site where
  /-- The files. -/
  tree : FileTree
  /-- The directory of the entry script. -/
  projectDir : Path
  /-- Further directories for imports, in normal form. -/
  searchPaths : List Path

/-- What has been loaded so far. -/
structure Loading where
  /-- The properties. -/
  bag : PropertyBag
  /-- The scripts that were tried, last first. -/
  visited : List Path
  /-- The scripts that were loaded, in order. -/
  scripts : List Path
  /-- The targets that were declared, in order. -/
  targets : List Declared
  /-- What was found wrong, in order. -/
  findings : List Finding

/-- The outermost element of the script at a path. -/
def readScript (tree : FileTree) (path : Path) : Except ScriptFault Element :=
  match tree.readText path with
  | .error cause => .error (.disk cause)
  | .ok text =>
    match Markup.parse? (Markup.dropMark text) with
    | none => .error .malformed
    | some root => if root.name = "Project" then .ok root else .error (.notAProject root.name)

/-- The extension of a path with its dot. -/
def dottedExtension (path : Path) : Text :=
  match path.extension? with
  | some extension => '.' :: extension
  | none => []

/-- The properties before any script is visited: what is known of the entry script, the version of the tools, the
configuration and platform, and the overrides. -/
def seedProperties (options : Options) (entry : Path) : PropertyBag :=
  let known := ((((((PropertyBag.empty.setGlobal "MSBuildProjectDirectory" ((entry.parent?.map Path.text).getD [])).setGlobal
    "MSBuildProjectFile" (entry.fileName?.getD [])).setGlobal "MSBuildProjectName" (entry.stem?.getD [])).setGlobal
    "MSBuildProjectFullPath" entry.text).setGlobal "MSBuildProjectExtension" (dottedExtension entry)).setGlobal
    "MSBuildToolsVersion" options.toolVersion).setGlobal "VisualStudioVersion" options.toolVersion
  let configured := match options.configuration with
    | some configuration => known.setGlobal "Configuration" configuration
    | none => known
  let onPlatform := match options.platform with
    | some platform => configured.setGlobal "Platform" platform
    | none => configured
  options.overrides.entries.foldl (fun bag e => bag.setGlobal e.1 e.2) onPlatform

/-- The properties that name the script being visited. -/
def thisFileProperties (script : Path) : List (Text × Text) :=
  let dir := script.parent?.getD ⟨[]⟩
  [("MSBuildThisFile".toList, script.fileName?.getD []),
   ("MSBuildThisFileDirectory".toList, dir.withTrailingSlash),
   ("MSBuildThisFileFullPath".toList, script.text),
   ("MSBuildThisFileName".toList, script.stem?.getD []),
   ("MSBuildThisFileExtension".toList, dottedExtension script)]

namespace Loading

/-- Goes to a script: the properties that name the script being visited name this one. -/
def enter (s : Loading) (script : Path) : Loading :=
  { s with bag := (thisFileProperties script).foldl (fun bag e => bag.setGlobal e.1 e.2) s.bag }

/-- Notes a finding. -/
def note (s : Loading) (finding : Finding) : Loading := { s with findings := s.findings ++ [finding] }

/-- Notes a warning, unless it is noted already. -/
def noteOnce (s : Loading) : Option Warning → Loading
  | some warning => if s.findings.any fun f => f.warning = warning then s else s.note (.noted warning)
  | none => s

/-- Whether the condition of an element holds; a condition without a truth value is noted. -/
def check (site : Site) (s : Loading) (script : Path) (e : Element) : Bool × Loading :=
  let (holds, found) := (⟨site.tree, site.projectDir, script⟩ : Condition.Site).check s.bag (e.attribute? "Condition")
  (holds, s.noteOnce found)

/-- Sets one property, if its condition holds. -/
def applyProperty (site : Site) (script : Path) (s : Loading) (e : Element) : Loading :=
  let (holds, s) := s.check site script e
  if holds then { s with bag := s.bag.set e.name (Text.trim (s.bag.expand (e.text?.getD []))) } else s

/-- Sets the properties of a group. -/
def applyProperties (site : Site) (script : Path) (s : Loading) (group : Element) : Loading :=
  group.elements.foldl (applyProperty site script) s

/-- Keeps the target that an element declares. -/
def declare (s : Loading) (script : Path) (e : Element) : Loading :=
  let name := Text.trim ((e.attribute? "Name").getD [])
  if name.isEmpty then
    s.note (.noted (.parse script ("line " ++ Text.ofNat e.line ++ ": <Target> without a Name")))
  else
    let tasks := e.descendants.filter fun (task : Element) => task.name == "CallTarget"
    let calls := tasks.filterMap fun task => task.attribute? "Targets"
    { s with targets := s.targets ++ [
        { name
          dependsOn := (e.attribute? "DependsOnTargets").getD []
          before := (e.attribute? "BeforeTargets").getD []
          after := (e.attribute? "AfterTargets").getD []
          calls
          condition := e.attribute? "Condition"
          script }] }

end Loading

/-! ## Imports -/

/-- Whether an import can lead to a path: a file is there, and the path is short enough to be opened. -/
def Site.offers (site : Site) (path : Path) : Bool := path.isOpenable && site.tree.isFile path

/-- The files that a wildcard stands for, in order. -/
def Site.expandWildcard (site : Site) (pattern : Path) : List Path :=
  ((Glob.files site.tree pattern).filter Path.isOpenable).mergeSort Path.le

/-- The files that an import names, if it leads anywhere: it is sought from the directory of the script and then from
the further ones. A wildcard always leads somewhere, and perhaps to no file. -/
def resolveImport (site : Site) (script : Path) (name : Text) : Option (List Path) :=
  if name.isEmpty then none
  else
    let bases := script.parent?.getD ⟨[]⟩ :: site.searchPaths
    let candidates := bases.map fun base => Path.absolutize base name
    if isWildcard name then some (((candidates.map site.expandWildcard).find? fun paths => !paths.isEmpty).getD [])
    else (candidates.find? site.offers).map fun path => [path]

/-- The branch of a choice: the first one whose condition holds, or else the last one that is for all other cases. -/
def selectBranch (site : Site) (script : Path) (otherwise : Option Element) (s : Loading) :
    List Element → Option Element × Loading
  | [] => (otherwise, s)
  | e :: rest =>
    if e.name = "When" then
      let (holds, s) := s.check site script e
      if holds then (some e, s) else selectBranch site script otherwise s rest
    else if e.name = "Otherwise" then selectBranch site script (some e) s rest
    else selectBranch site script otherwise s rest

/-! ## Tasks -/

/-- What is still to be done. -/
inductive Task where
  /-- Visit elements of a script. -/
  | visit (script : Path) (elements : List Element)
  /-- Load an import of a script. -/
  | load (importer path : Path)
  /-- Go back to a script. -/
  | resume (script : Path)

/-- Visits one element, and gives what is to be done before the next one. -/
def visitElement (site : Site) (s : Loading) (script : Path) (e : Element) : Loading × List Task :=
  if e.name = "PropertyGroup" then
    let (holds, s) := s.check site script e
    (if holds then s.applyProperties site script e else s, [])
  else if e.name = "Import" then
    let (holds, s) := s.check site script e
    if holds then
      let name := Text.trim (s.bag.expand ((e.attribute? "Project").getD []))
      match resolveImport site script name with
      | some paths => (s, paths.map (Task.load script))
      | none => (s.note (.unresolvedImport script name), [])
    else (s, [])
  else if e.name = "ImportGroup" then
    let (holds, s) := s.check site script e
    (s, if holds then [.visit script (e.elementsNamed "Import")] else [])
  else if e.name = "Choose" then
    let (branch, s) := selectBranch site script none s e.elements
    (s, match branch with
      | some branch => [.visit script branch.elements]
      | none => [])
  else if e.name = "Target" then (s.declare script e, [])
  else (s, [])

/-! ### Why loading ends -/

/-- An element and all elements below it. -/
def weight (e : Element) : Nat := e.descendants.length + 1

/-- How many elements a task has still to visit. -/
def Task.weight : Task → Nat
  | .visit _ elements => total (elements.map Target.weight)
  | _ => 0

/-- How many elements are still to be visited. -/
def pendingWeight (tasks : List Task) : Nat := total (tasks.map Task.weight)

/-- A list of tasks that are left weighs less than one with a further task, or the same and is longer. -/
theorem pending_lt_cons (task : Task) (rest : List Task) :
    Prod.Lex (· < ·) (· < ·) (pendingWeight rest, rest.length) (pendingWeight (task :: rest), (task :: rest).length) := by
  have sum : pendingWeight (task :: rest) = task.weight + pendingWeight rest := by simp [pendingWeight]
  rcases Nat.eq_zero_or_pos task.weight with h | h
  · rw [sum, h, Nat.zero_add]
    exact Prod.Lex.right _ (by simp)
  · exact Prod.Lex.left _ _ (by omega)

/-- The elements below a node are its child elements and what is below those. -/
theorem length_elementsBelowAll (nodes : List Markup.Node) :
    (Markup.elementsBelowAll nodes).length = total ((nodes.filterMap Markup.Node.element?).map weight) := by
  induction nodes with
  | nil => rfl
  | cons node rest ih =>
    cases node with
    | element name attributes line children =>
      simp [Markup.elementsBelowAll, Markup.Node.elementsBelow, Markup.Node.element?, weight, Element.descendants, ih]
      omega
    | text content =>
      rw [List.filterMap_cons_none rfl, ← ih]
      simp [Markup.elementsBelowAll, Markup.Node.elementsBelow]
    | remark =>
      rw [List.filterMap_cons_none rfl, ← ih]
      simp [Markup.elementsBelowAll, Markup.Node.elementsBelow]

/-- The child elements weigh less than the element. -/
theorem sum_weight_elements (e : Element) : total (e.elements.map weight) + 1 = weight e := by
  simp only [Element.elements, weight, Element.descendants, length_elementsBelowAll]

theorem sum_weight_filter_le (p : Element → Bool) (es : List Element) :
    total ((es.filter p).map weight) ≤ total (es.map weight) := by
  induction es with
  | nil => simp
  | cons e rest ih =>
    rw [List.filter_cons]
    split <;> simp only [List.map_cons, total_cons] <;> omega

theorem weight_le_sum {e : Element} {es : List Element} (h : e ∈ es) : weight e ≤ total (es.map weight) := by
  induction es with
  | nil => simp at h
  | cons a rest ih =>
    simp only [List.map_cons, total_cons]
    rcases List.mem_cons.1 h with rfl | h
    · omega
    · have := ih h
      omega

/-- The branch of a choice is one of its elements. -/
theorem mem_of_selectBranch {site : Site} {script : Path} {otherwise : Option Element} {s s' : Loading}
    {es : List Element} {e : Element} (h : selectBranch site script otherwise s es = (some e, s')) :
    e ∈ es ∨ otherwise = some e := by
  induction es generalizing otherwise s with
  | nil =>
    simp only [selectBranch, Prod.mk.injEq] at h
    exact .inr h.1
  | cons a rest ih =>
    unfold selectBranch at h
    split at h
    · simp only at h
      split at h
      · simp only [Prod.mk.injEq, Option.some.injEq] at h
        exact .inl (List.mem_cons.2 (.inl h.1.symm))
      · exact (ih h).imp (List.mem_cons.2 ∘ .inr) id
    · split at h
      · rcases ih h with h | h
        · exact .inl (List.mem_cons.2 (.inr h))
        · exact .inl (List.mem_cons.2 (.inl (Option.some.inj h).symm))
      · exact (ih h).imp (List.mem_cons.2 ∘ .inr) id

theorem pendingWeight_append (ts us : List Task) : pendingWeight (ts ++ us) = pendingWeight ts + pendingWeight us := by
  simp [pendingWeight]

theorem pendingWeight_loads (script : Path) (paths : List Path) : pendingWeight (paths.map (Task.load script)) = 0 := by
  induction paths with
  | nil => rfl
  | cons p rest ih => simpa [pendingWeight, Task.weight] using ih

/-- What an element leaves to be done weighs less than the element. -/
theorem pendingWeight_visitElement_lt (site : Site) (s : Loading) (script : Path) (e : Element) :
    pendingWeight (visitElement site s script e).2 < weight e := by
  have own := sum_weight_elements e
  unfold visitElement
  split
  · simp only [pendingWeight, List.map_nil, total_nil]; omega
  · split
    · simp only
      split
      · split
        · rw [pendingWeight_loads]; omega
        · simp only [pendingWeight, List.map_nil, total_nil]; omega
      · simp only [pendingWeight, List.map_nil, total_nil]; omega
    · split
      · simp only
        split
        · have := sum_weight_filter_le (fun child => child.name == ("Import".toList : Text)) e.elements
          simp only [pendingWeight, Task.weight, Element.elementsNamed, List.map_cons, List.map_nil, total_cons,
            total_nil]
          omega
        · simp only [pendingWeight, List.map_nil, total_nil]; omega
      · split
        · simp only
          split
          · rename_i branch hb
            have hmem := mem_of_selectBranch (Prod.ext (Eq.trans rfl hb) rfl)
            rcases hmem with hmem | hmem
            · have := weight_le_sum hmem
              have := sum_weight_elements branch
              simp only [pendingWeight, Task.weight, List.map_cons, List.map_nil, total_cons, total_nil]
              omega
            · cases hmem
          · simp only [pendingWeight, List.map_nil, total_nil]; omega
        · split <;> simp only [pendingWeight, List.map_nil, total_nil] <;> omega

/-- Visiting an element tries no script. -/
theorem visited_visitElement (site : Site) (s : Loading) (script : Path) (e : Element) :
    (visitElement site s script e).1.visited = s.visited := by
  have noteOnce (s : Loading) (w : Option Warning) : (s.noteOnce w).visited = s.visited := by
    unfold Loading.noteOnce Loading.note
    split
    · split <;> rfl
    · rfl
  have check (s : Loading) (e : Element) : (s.check site script e).2.visited = s.visited := noteOnce _ _
  have property (s : Loading) (e : Element) : (s.applyProperty site script e).visited = s.visited := by
    unfold Loading.applyProperty
    simp only
    split <;> exact check s e
  have properties (es : List Element) (s : Loading) :
      (es.foldl (Loading.applyProperty site script) s).visited = s.visited := by
    induction es generalizing s with
    | nil => rfl
    | cons e rest ih => rw [List.foldl_cons, ih, property]
  have branch (es : List Element) (o : Option Element) (s : Loading) :
      (selectBranch site script o s es).2.visited = s.visited := by
    induction es generalizing o s with
    | nil => rfl
    | cons a rest ih =>
      unfold selectBranch
      split
      · simp only
        split
        · exact check s a
        · rw [ih, check]
      · split <;> rw [ih]
  unfold visitElement
  split
  · simp only
    split
    · rw [Loading.applyProperties, properties, check]
    · exact check s e
  · split
    · simp only
      split
      · split <;> exact check s e
      · exact check s e
    · split
      · exact check s e
      · split
        · exact branch e.elements none s
        · split
          · unfold Loading.declare
            simp only
            split <;> rfl
          · rfl

/-- Whether a script has been tried. -/
def Loading.hasTried (s : Loading) (path : Path) : Bool := s.visited.any path.same

/-- A script that has not been tried is not in the list. -/
theorem Loading.not_mem_of_hasTried {s : Loading} {path : Path} (h : s.hasTried path = false) : path ∉ s.visited := by
  intro mem
  rw [Loading.hasTried, List.any_eq_true.2 ⟨path, mem, path.same_refl⟩] at h
  cases h

/-- Works off a list of tasks; each script is loaded once. -/
def run (site : Site) (s : Loading) : List Task → Loading
  | [] => s
  | .visit _ [] :: rest => run site s rest
  | .visit script (e :: es) :: rest =>
    run site (visitElement site s script e).1 ((visitElement site s script e).2 ++ .visit script es :: rest)
  | .resume script :: rest => run site (s.enter script) rest
  | .load importer path :: rest =>
    if path.isOpenable ∧ s.hasTried path = false then
      let tried := { s with visited := path :: s.visited }
      match readScript site.tree path with
      | .error fault => run site (tried.note (.brokenImport path fault)) rest
      | .ok root =>
        run site ({ tried with scripts := s.scripts ++ [path] }.enter path)
          (.visit path root.elements :: .resume importer :: rest)
    else run site s rest
termination_by tasks => (unseen Path.openable s.visited, pendingWeight tasks, tasks.length)
decreasing_by
  · exact Prod.Lex.right _ (pending_lt_cons _ _)
  · rw [visited_visitElement]
    refine Prod.Lex.right _ (Prod.Lex.left _ _ ?_)
    have := pendingWeight_visitElement_lt site s script e
    rw [pendingWeight_append]
    simp only [pendingWeight, Task.weight, List.map_cons, total_cons] at this ⊢
    omega
  · exact Prod.Lex.right _ (pending_lt_cons _ _)
  · rename_i new
    exact Prod.Lex.left _ _ (unseen_cons_lt (Path.mem_openable new.1) (Loading.not_mem_of_hasTried new.2))
  · rename_i new
    exact Prod.Lex.left _ _ (unseen_cons_lt (Path.mem_openable new.1) (Loading.not_mem_of_hasTried new.2))
  · exact Prod.Lex.right _ (pending_lt_cons _ _)

/-! ## Entry scripts -/

/-- What the entry script and its imports say. -/
structure Loaded where
  /-- The properties, the targets and so on after all scripts are visited. -/
  state : Loading
  /-- The targets that the entry script builds by default, as written. -/
  defaultTargets : Option Text

/-- The path of the entry script. -/
def entryPath (tree : FileTree) (options : Options) : Path :=
  if options.entryScript.isAbsolute then options.entryScript.normalize
  else Path.absolutize tree.workingPath options.entryScript.text

/-- Loads the entry script and everything that it imports. -/
def load (tree : FileTree) (options : Options) (entry : Path) : Except TargetError Loaded :=
  match readScript tree entry with
  | .error fault => .error (.badScript entry fault)
  | .ok root =>
    let projectDir := entry.parent?.getD ⟨[]⟩
    let site : Site := ⟨tree, projectDir, options.searchPaths.map fun dir => Path.absolutize projectDir dir.text⟩
    let start : Loading := ⟨seedProperties options entry, [entry], [entry], [], []⟩
    .ok ⟨run site (start.enter entry) [.visit entry root.elements], root.attribute? "DefaultTargets"⟩

end SolutionGraph.Target
