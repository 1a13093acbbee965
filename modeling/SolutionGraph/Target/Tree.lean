import SolutionGraph.Target.Cycle
import SolutionGraph.Target.Loader

/-!
# Target trees

The targets that a script and its imports declare, and those that a build of the root target runs, in order. References to
properties in targets are replaced after all scripts are loaded. A target that is declared again keeps its place and is the
later one.
-/

namespace SolutionGraph

/-- The targets of a script and its imports. -/
structure TargetTree where
  /-- The script that loading started from. -/
  entryScript : Path
  /-- The name of the root target, as declared. -/
  root : Text
  /-- All declared targets. -/
  targets : Target.Table
  /-- The names of the targets that run, in order. -/
  reachable : List Text
  /-- The scripts that were loaded, in order. -/
  scripts : List Path
  /-- What was found wrong. -/
  warnings : List Warning

namespace TargetTree

/-- The declared target of a name. -/
def get? (t : TargetTree) (name : Text) : Option Target := t.targets.get? (Target.key name)

/-- The targets that run, in order. -/
def reachableTargets (t : TargetTree) : List Target := t.reachable.filterMap t.get?

/-- Whether a target runs when the root is built. -/
def isReachable (t : TargetTree) (name : Text) : Bool := t.reachable.any fun r => Text.eqIgnoringCase r name

/-- The line of a target. -/
def targetLine (t : Target) : Text :=
  let needs : Text := if t.prerequisites.isEmpty then [] else " <- " ++ Text.join ", " t.prerequisites
  let idle : Text := if t.enabled then [] else " [condition false]"
  t.name ++ needs ++ idle ++ "\n"

/-- The targets that run, one on each line with its prerequisites. -/
def display (t : TargetTree) : Text := t.reachableTargets.flatMap targetLine

end TargetTree

namespace Target

/-- The names of a list with its references replaced. -/
def expandNames (bag : PropertyBag) (raw : Text) : List Text := splitList (bag.expand raw)

/-- A list of names with one more at its end, unless it is in the list in some case. -/
def insertName (names : List Text) (name : Text) : List Text :=
  if names.any fun seen => Text.eqIgnoringCase seen name then names else names ++ [name]

/-- A declared target with its references replaced and its condition evaluated. -/
def ofDeclared (site : Site) (bag : PropertyBag) (d : Declared) : Target × Option Warning :=
  let named := (d.dependsOn :: d.calls).flatMap (expandNames bag)
  let (enabled, found) := (⟨site.tree, site.projectDir, d.script⟩ : Condition.Site).check bag d.condition
  ({ name := d.name
     prerequisites := named.foldl insertName []
     beforeTargets := expandNames bag d.before
     afterTargets := expandNames bag d.after
     script := d.script
     condition := d.condition
     enabled }, found)

/-- The target to build: the requested one, or else the first default one, or else the first declared one. -/
def selectRoot (requested : Text) (defaults : Option Text) (bag : PropertyBag) (table : Table) : Option Text :=
  let name := Text.trim requested
  if name.isEmpty then
    ((defaults.bind fun raw => (expandNames bag raw).head?)).or (table.values.head?.map Target.name)
  else some name

/-- The warnings with one for each missing prerequisite, unless it is there already. -/
def noteMissing (warnings : List Warning) (missing : List (Text × Text)) : List Warning :=
  missing.foldl (fun ws (target, prerequisite) => insertNew ws (.missingTarget target prerequisite)) warnings

/-- The declared name of a key. -/
def declaredName (table : Table) (k : Text) : Text :=
  match table.get? k with
  | some t => t.name
  | none => k

/-- Puts the loaded targets together. -/
def assemble (site : Site) (options : Options) (entry : Path) (loaded : Loaded) : Except TargetError TargetTree :=
  let bag := loaded.state.bag
  let evaluated := loaded.state.targets.map (ofDeclared site bag)
  let table : Table := .ofList (evaluated.map fun (t, _) => (key t.name, t))
  let warnings := loaded.state.findings.map Finding.warning ++ evaluated.filterMap Prod.snd
  match selectRoot options.rootTarget loaded.defaultTargets bag table with
  | none => .error (.noTargets entry)
  | some requested =>
    match table.get? (key requested) with
    | none => .error (.targetNotFound requested entry)
    | some root =>
      let order := runOrder table (key root.name)
      let report := search table order
      let cycle := match report.cycle with
        | some members => [Warning.targetCycle (members.map (declaredName table))]
        | none => []
      .ok
        { entryScript := entry
          root := root.name
          targets := table
          reachable := order.filterMap fun k => (table.get? k).map Target.name
          scripts := loaded.state.scripts
          warnings := noteMissing warnings report.missing ++ cycle }

/-- The target tree of a script. -/
def buildTree (tree : FileTree) (options : Options) : Except TargetError TargetTree :=
  let entry := entryPath tree options
  if tree.isFile entry then
    match load tree options entry with
    | .error e => .error e
    | .ok loaded =>
      let fatal := if options.strictImports then Finding.firstFatal? loaded.state.findings else none
      match fatal with
      | some e => .error e
      | none => assemble ⟨tree, entry.parent?.getD ⟨[]⟩, []⟩ options entry loaded
  else .error (.notFound entry)

end Target

end SolutionGraph
