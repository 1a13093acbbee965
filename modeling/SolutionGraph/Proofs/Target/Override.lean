import SolutionGraph.Proofs.Target.Lockstep
import SolutionGraph.Proofs.Target.ThisFile
import SolutionGraph.Target.Tree

/-!
# Overridden properties

Scripts cannot change what is overridden.

* **values**: at every moment of loading, and after it, each overridden property has the value that the options give it
  (`Passes.upholds`). Overridden properties are global from the start (`Guards`), so no step but the change to another
  script can give them another value (`Advance.bag`);
* **texts**: it does not matter which text a script has for an overridden property (`buildTree_overriding`). Two
  loadings that differ in such texts only go through the same states (`lockstep_overriding`).

`buildTree_upholds` has both.
-/

namespace SolutionGraph.Target

open Markup (Element Redaction)
open Relation (ReflTransGen)
open PropertyBag (isNamed setGlobals)

section Overrides

variable {tree tree' : FileTree} {options : Options} {entry : Path}

/-! ## Values -/

/-- The names of the overrides differ, whatever their case. -/
def Overrides.Distinct (overrides : Overrides) : Prop :=
  overrides.entries.Pairwise fun e e' => Text.asciiLower e.1 ≠ Text.asciiLower e'.1

instance (overrides : Overrides) : Decidable overrides.Distinct := inferInstanceAs (Decidable (List.Pairwise _ _))

/-- Overridden properties have the values that the options give them. -/
def Upholds (options : Options) (bag : PropertyBag) : Prop :=
  ∀ name value, (name, value) ∈ options.overrides.entries → isThisFile name = false → bag.get? name = some value

/-- Overridden properties are global. -/
def Guards (options : Options) (bag : PropertyBag) : Prop :=
  ∀ name, isNamed options.overrides.entries name → bag.isGlobal name

theorem Guards.set {bag : PropertyBag} (h : Guards options bag) (name value : Text) : Guards options (bag.set name value) := by
  intro other overridden
  rw [PropertyBag.isGlobal_set]
  exact h other overridden

theorem Guards.setGlobals {bag : PropertyBag} (h : Guards options bag) (entries : List (Text × Text)) :
    Guards options (bag.setGlobals entries) := by
  intro other overridden
  rw [PropertyBag.isGlobal_setGlobals, h other overridden, Bool.or_true]

theorem guards_startOf (options : Options) (entry : Path) : Guards options (startOf options entry).bag := by
  obtain ⟨known, seeded⟩ : ∃ known : PropertyBag, seedProperties options entry = known.setGlobals options.overrides.entries :=
    ⟨_, rfl⟩
  refine Guards.setGlobals ?_ (thisFileProperties entry)
  intro name overridden
  rw [seeded, PropertyBag.isGlobal_setGlobals, overridden, Bool.true_or]

theorem Upholds.set {bag : PropertyBag} (h : Upholds options bag) (guarded : Guards options bag) (name value : Text) :
    Upholds options (bag.set name value) := by
  intro own kept mem other
  rw [PropertyBag.get?_set, if_neg, h own kept mem other]
  rintro ⟨same, free⟩
  have overridden : isNamed options.overrides.entries name :=
    List.any_eq_true.2 ⟨_, mem, decide_eq_true same.symm⟩
  rw [guarded name overridden] at free
  cases free

theorem Upholds.enter {bag : PropertyBag} (h : Upholds options bag) (script : Path) :
    Upholds options (bag.setGlobals (thisFileProperties script)) := by
  intro name value mem other
  rw [← isNamed_thisFileProperties script] at other
  rw [PropertyBag.get?_setGlobals_of_isNamed_eq_false other]
  exact h name value mem other

theorem upholds_startOf (distinct : options.overrides.Distinct) (entry : Path) :
    Upholds options (startOf options entry).bag := by
  obtain ⟨known, seeded⟩ : ∃ known : PropertyBag, seedProperties options entry = known.setGlobals options.overrides.entries :=
    ⟨_, rfl⟩
  refine Upholds.enter ?_ entry
  intro name value mem other
  rw [seeded]
  exact PropertyBag.get?_setGlobals_of_mem distinct mem

theorem Advance.upholds {site : Site} {m m' : Moment} (step : Advance site m m')
    (h : Upholds options m.state.bag ∧ Guards options m.state.bag) :
    Upholds options m'.state.bag ∧ Guards options m'.state.bag := by
  obtain same | ⟨name, value, set⟩ | ⟨script, entered⟩ := step.bag
  · rwa [same]
  · rw [set]
    exact ⟨h.1.set h.2 name value, h.2.set name value⟩
  · rw [entered]
    exact ⟨h.1.enter script, h.2.setGlobals _⟩

/-- Overridden properties have their values at every moment. -/
theorem Passes.upholds {root : Element} {m : Moment} (passes : Passes tree options entry root m)
    (distinct : options.overrides.Distinct) : Upholds options m.state.bag := by
  have both : Upholds options m.state.bag ∧ Guards options m.state.bag := by
    induction passes with
    | refl => exact ⟨upholds_startOf distinct entry, guards_startOf options entry⟩
    | tail _ step ih => exact step.upholds ih
  exact both.1

/-! ## Texts -/

/-- The texts of overridden properties do not count. -/
def overriding (options : Options) : Redaction := ⟨true, isNamed options.overrides.entries⟩

/-- Two trees differ in the texts that scripts have for overridden properties, and in nothing else that can be read as a
script. -/
def AlikeOverriding (options : Options) (tree tree' : FileTree) : Prop :=
  tree.Alike (fun _ bytes bytes' => ScriptAlike (overriding options) (scriptOf bytes) (scriptOf bytes')) tree'

section Alike

variable (alike : AlikeOverriding options tree tree')
include alike

theorem check_overriding (base path : Path) (bag : PropertyBag) (text? : Option Text) :
    (⟨tree, base, path⟩ : Condition.Site).check bag text? = (⟨tree', base, path⟩ : Condition.Site).check bag text? :=
  Condition.Site.check_congr alike.holds_eq fun _ _ _ _ => rfl

theorem loadingCheck_overriding {inGroup : Bool} {e e' : Element}
    (same : Element.SameUpTo (overriding options) inGroup e e') (s : Loading) (script : Path) :
    s.check (siteOf tree options entry) script e = s.check (siteOf tree' options entry) script e' := by
  unfold Loading.check siteOf
  simp only [check_overriding alike, same.attribute?]

theorem applyProperty_overriding {e e' : Element} (same : Element.SameUpTo (overriding options) true e e') {s : Loading}
    (guarded : Guards options s.bag) (script : Path) :
    s.applyProperty (siteOf tree options entry) script e = s.applyProperty (siteOf tree' options entry) script e' := by
  rw [applyProperty_eq, applyProperty_eq, loadingCheck_overriding alike same, same.name]
  cases overridden : isNamed options.overrides.entries e.name with
  | true =>
    have global : s.bag.isGlobal e'.name := same.name ▸ guarded e.name overridden
    rw [PropertyBag.set_of_isGlobal global, PropertyBag.set_of_isGlobal global]
  | false =>
    have shown : (true && (overriding options).hides e.name) = false := overridden
    rw [same.text? shown]

/-- Loadings that differ in the texts of overridden properties have equal states. -/
theorem lockstep_overriding (entry : Path) :
    Lockstep (siteOf tree options entry) (siteOf tree' options entry) (overriding options) (fun _ => True)
      fun s s' => s = s' ∧ Guards options s.bag where
  resolve := resolveImport_alike alike _ _
  expand := by
    rintro s s' ⟨rfl, -⟩ t
    rfl
  check := by
    rintro s s' e e' inGroup script ⟨rfl, guarded⟩ same
    rw [← loadingCheck_overriding alike same]
    refine ⟨rfl, rfl, ?_⟩
    rwa [(onlyNotes_check _ s script e).bag]
  assign := by
    rintro s s' script e e' ⟨rfl, guarded⟩ same
    rw [← applyProperty_overriding alike same guarded]
    obtain kept | ⟨name, value, set⟩ := bag_applyProperty (siteOf tree options entry) script s e
    · exact ⟨rfl, kept ▸ guarded⟩
    · exact ⟨rfl, set ▸ guarded.set name value⟩
  declare := by
    rintro s s' e e' script ⟨rfl, guarded⟩ same
    have declared : s.declare script e = s.declare script e' := by
      unfold Loading.declare
      simp only [same.attribute?, same.line rfl, same.attributesBelow]
    exact ⟨declared, (bag_declare s script e).symm ▸ guarded⟩
  note := by
    rintro s s' f ⟨rfl, guarded⟩
    exact ⟨rfl, guarded⟩
  tried := by
    rintro s s' path ⟨rfl, -⟩ -
    rfl
  read := fun _ _ _ => readScript_alike alike fun _ _ related => related
  visited := by
    rintro s s' path ⟨rfl, guarded⟩
    exact ⟨rfl, guarded⟩
  scripts := by
    rintro s s' path ⟨rfl, guarded⟩
    exact ⟨rfl, guarded⟩
  enter := by
    rintro s s' script ⟨rfl, guarded⟩
    exact ⟨rfl, guarded.setGlobals _⟩

theorem load_overriding (entry : Path) : load tree options entry = load tree' options entry := by
  have scripts : ScriptAlike (overriding options) (readScript tree entry) (readScript tree' entry) :=
    readScript_alike alike fun _ _ related => related
  cases read : readScript tree entry with
  | error fault => rw [load_of_broken read, load_of_broken (scripts.of_broken read)]
  | ok root =>
    obtain ⟨root', read', same⟩ := scripts.of_read read
    have tasks : List.Forall₂ (TaskAlike (overriding options)) [.visit entry root.elements] [.visit entry root'.elements] :=
      .cons (.visit (sameInside same (isGroup_of_readScript read))) .nil
    have states := (lockstep_overriding alike entry).run ⟨rfl, guards_startOf options entry⟩ tasks fun _ _ => trivial
    rw [load_of_read read, load_of_read read', states.1, same.attribute?]

theorem buildTree_overriding : buildTree tree options = buildTree tree' options := by
  have declared (base : Path) : ofDeclared ⟨tree, base, []⟩ = ofDeclared ⟨tree', base, []⟩ := by
    funext bag d
    simp only [ofDeclared, check_overriding alike]
  unfold buildTree assemble
  simp only [entryPath_alike alike, alike.isFile_eq, load_overriding alike, declared]

end Alike

/-! ## Both -/

/-- **Scripts cannot change what is overridden**: overridden properties have their values at every moment of loading and
after it, and the texts that scripts have for them make no difference to the targets, the order, the scripts, the
warnings or the error. -/
theorem buildTree_upholds (tree : FileTree) (options : Options) :
    (options.overrides.Distinct → ∀ entry root, readScript tree entry = .ok root →
        (∀ m, Passes tree options entry root m → Upholds options m.state.bag) ∧
          ∃ loaded, load tree options entry = .ok loaded ∧ Upholds options loaded.state.bag) ∧
      ∀ tree', AlikeOverriding options tree tree' → buildTree tree options = buildTree tree' options := by
  refine ⟨fun distinct entry root read => ?_, fun tree' alike => buildTree_overriding alike⟩
  have always (m : Moment) (passes : Passes tree options entry root m) : Upholds options m.state.bag :=
    passes.upholds distinct
  refine ⟨always, _, load_of_read read, ?_⟩
  exact always _ (reaches_run _ _ _)

end Overrides

namespace Sample

/-- A script that sets a property and declares a target. -/
def script (mode : Text) : Text :=
  "<Project><PropertyGroup><Mode>" ++ mode ++ "</Mode></PropertyGroup><Target Name=\"Build\"/></Project>"

def scripted (mode : Text) : FileTree := ⟨.dir [("w", .dir [("a.proj", .file (Text.encode (script mode)))])], ["w"]⟩

/-- The property is overridden. -/
def fast : Options := ⟨⟨"a.proj"⟩, [], [], ⟨[("mode", "fast")]⟩, none, none, false, "17.0"⟩

theorem alike_scripted : AlikeOverriding fast (scripted "slow") (scripted "off") := by
  have scripts : ScriptAlike (overriding fast) (scriptOf (Text.encode (script "slow")))
      (scriptOf (Text.encode (script "off"))) := by decide +kernel
  exact ⟨rfl, by simpa [scripted, FileNode.Alike, FileNode.AlikeEntries] using scripts⟩

end Sample

/-- In the sample the property keeps the value that it is given, whatever the script has for it. -/
theorem upholds_sample : Sample.fast.overrides.Distinct ∧
    (∃ loaded, load (Sample.scripted "slow") Sample.fast ⟨"/w/a.proj"⟩ = .ok loaded ∧
      loaded.state.bag.get? "Mode" = some ("fast".toList : Text)) ∧
    buildTree (Sample.scripted "slow") Sample.fast = buildTree (Sample.scripted "off") Sample.fast := by
  obtain ⟨values, texts⟩ := buildTree_upholds (Sample.scripted "slow") Sample.fast
  have distinct : Sample.fast.overrides.Distinct := by decide
  have readable : (readScript (Sample.scripted "slow") ⟨"/w/a.proj"⟩).toOption.isSome := by decide +kernel
  refine ⟨distinct, ?_, texts _ Sample.alike_scripted⟩
  cases read : readScript (Sample.scripted "slow") ⟨"/w/a.proj"⟩ with
  | error =>
    rw [read] at readable
    cases readable
  | ok root =>
    obtain ⟨-, loaded, loads, upheld⟩ := values distinct _ root read
    have kept : loaded.state.bag.get? "mode" = some ("fast".toList : Text) := upheld _ _ List.mem_cons_self (by decide)
    exact ⟨loaded, loads, kept⟩

end SolutionGraph.Target
