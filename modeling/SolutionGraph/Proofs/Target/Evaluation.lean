import SolutionGraph.Proofs.Markup.Redaction
import SolutionGraph.Proofs.Target.Import
import SolutionGraph.Proofs.Target.ThisFile

/-!
# What is evaluated, and where

A step of loading evaluates conditions, texts of properties and names of imports (`Evaluates`), each of an element of some
script, in the properties of its moment.

* **whose texts**: the element is one of a script that was loaded (`Evaluates.belongs`), and the five properties that name
  the script being visited name that script (`Evaluates.atScript`), whatever came before;
* **nothing else is read** (`readsEvaluated`): with other properties a step does the same, as long as those that the
  evaluated texts refer to have the same values.

`evaluates_atScript` has both for every moment of a loading.
-/

namespace SolutionGraph.Target

open Markup (Element)
open Relation (ReflTransGen)

/-! ## Texts that are evaluated -/

/-- A text of an element that is evaluated. -/
inductive Evaluated where
  /-- A condition. -/
  | condition (text : Text)
  /-- The text of a property, or the name of an import. -/
  | plain (text : Text)

/-- The names of the properties that it refers to. -/
def Evaluated.references : Evaluated → List Text
  | .condition text => Condition.textReferences text
  | .plain text => PropertyBag.references text

/-- Whether the condition of an element is evaluated when the element is visited. -/
def IsGuarded (e : Element) : Prop := e.name = "PropertyGroup" ∨ e.name = "Import" ∨ e.name = "ImportGroup"

/-- A branch of a choice whose condition is evaluated: no earlier one is taken. -/
def IsTried (site : Site) (s : Loading) (script : Path) (es : List Element) (branch : Element) : Prop :=
  ∃ before after, es = before ++ branch :: after ∧ branch.name = "When" ∧
    ∀ c ∈ before, c.name = "When" → (s.check site script c).1 = false

/-- What the step from a moment evaluates, with its element and the script of that. -/
inductive Evaluates (site : Site) : Moment → Path → Element → Evaluated → Prop
  /-- The condition of a property. -/
  | propertyCondition {s : Loading} {script : Path} {e : Element} {more : List (Path × Element)} {tasks : List Task}
    {text : Text} (found : e.attribute? "Condition" = some text) :
    Evaluates site ⟨s, (script, e) :: more, tasks⟩ script e (.condition text)
  /-- The text of a property whose condition holds. -/
  | propertyText {s : Loading} {script : Path} {e : Element} {more : List (Path × Element)} {tasks : List Task}
    (holds : (s.check site script e).1 = true) :
    Evaluates site ⟨s, (script, e) :: more, tasks⟩ script e (.plain (e.text?.getD []))
  /-- The condition of a group or an import. -/
  | elementCondition {s : Loading} {script : Path} {e : Element} {es : List Element} {rest : List Task} {text : Text}
    (guarded : IsGuarded e) (found : e.attribute? "Condition" = some text) :
    Evaluates site ⟨s, [], .visit script (e :: es) :: rest⟩ script e (.condition text)
  /-- The name of an import whose condition holds. -/
  | importName {s : Loading} {script : Path} {e : Element} {es : List Element} {rest : List Task}
    (named : e.name = "Import") (holds : (s.check site script e).1 = true) :
    Evaluates site ⟨s, [], .visit script (e :: es) :: rest⟩ script e (.plain ((e.attribute? "Project").getD []))
  /-- The condition of a branch of a choice. -/
  | branchCondition {s : Loading} {script : Path} {e branch : Element} {es : List Element} {rest : List Task}
    {text : Text} (named : e.name = "Choose") (tried : IsTried site s script e.elements branch)
    (found : branch.attribute? "Condition" = some text) :
    Evaluates site ⟨s, [], .visit script (e :: es) :: rest⟩ script branch (.condition text)

/-! ## Nothing else is read -/

/-- The state with other properties. -/
def Loading.withBag (s : Loading) (bag : PropertyBag) : Loading := { s with bag }

/-- The moment with other properties. -/
def Moment.withBag (m : Moment) (bag : PropertyBag) : Moment := { m with state := m.state.withBag bag }

section Reads

variable {site : Site} {s : Loading} {script : Path} {e : Element} {bag : PropertyBag}

/-- The properties that a condition refers to have the same values in another bag. -/
def AgreesOnCondition (s : Loading) (bag : PropertyBag) (e : Element) : Prop :=
  ∀ text, e.attribute? "Condition" = some text →
    ∀ name ∈ Condition.textReferences text, bag.get? name = s.bag.get? name

theorem noteOnce_withBag (s : Loading) (bag : PropertyBag) (found : Option Warning) :
    (s.withBag bag).noteOnce found = (s.noteOnce found).withBag bag := by
  cases found with
  | none => rfl
  | some warning =>
    have findings : (s.withBag bag).findings = s.findings := rfl
    simp only [Loading.noteOnce, findings]
    split <;> rfl

theorem check_withBag (agree : AgreesOnCondition s bag e) (script : Path) :
    (s.withBag bag).check site script e = ((s.check site script e).1, (s.check site script e).2.withBag bag) := by
  have same : (⟨site.tree, site.projectDir, script⟩ : Condition.Site).check bag (e.attribute? "Condition") =
      (⟨site.tree, site.projectDir, script⟩ : Condition.Site).check s.bag (e.attribute? "Condition") :=
    Condition.Site.check_congr (fun _ => rfl) agree
  have noted := noteOnce_withBag s bag
    ((⟨site.tree, site.projectDir, script⟩ : Condition.Site).check s.bag (e.attribute? "Condition")).2
  have own : (s.withBag bag).bag = bag := rfl
  simp only [Loading.check, own, same, noted]

/-- Whether a condition holds depends on the properties only. -/
theorem check_fst_of_bag {s' : Loading} (same : s'.bag = s.bag) (script : Path) (e : Element) :
    (s'.check site script e).1 = (s.check site script e).1 := by
  unfold Loading.check
  rw [same]

theorem selectBranch_withBag {otherwise : Option Element} {es : List Element}
    (agree : ∀ branch, IsTried site s script es branch → AgreesOnCondition s bag branch) :
    selectBranch site script otherwise (s.withBag bag) es =
      ((selectBranch site script otherwise s es).1, (selectBranch site script otherwise s es).2.withBag bag) := by
  induction es generalizing s otherwise with
  | nil => rfl
  | cons e es ih =>
    unfold selectBranch
    by_cases when_ : e.name = "When"
    · have checked := onlyNotes_check site s script e
      have first : AgreesOnCondition s bag e :=
        agree e ⟨[], es, rfl, when_, fun c mem => absurd mem List.not_mem_nil⟩
      rw [if_pos when_, if_pos when_, check_withBag first]
      cases holds : (s.check site script e).1 with
      | true => simp only [holds, if_true]
      | false =>
        simp only [holds, Bool.false_eq_true, if_false]
        refine ih fun branch tried => ?_
        obtain ⟨before, after, rfl, named, none⟩ := tried
        have later : IsTried site s script (e :: (before ++ branch :: after)) branch := by
          refine ⟨e :: before, after, rfl, named, fun c mem isWhen => ?_⟩
          rcases List.mem_cons.1 mem with rfl | mem
          · exact holds
          · rw [← check_fst_of_bag checked.bag]
            exact none c mem isWhen
        intro text found name mem
        rw [checked.bag]
        exact agree branch later text found name mem
    · have later : ∀ branch, IsTried site s script es branch → AgreesOnCondition s bag branch := by
        rintro branch ⟨before, after, rfl, named, none⟩
        refine agree branch ⟨e :: before, after, rfl, named, fun c mem isWhen => ?_⟩
        rcases List.mem_cons.1 mem with rfl | mem
        · exact absurd isWhen when_
        · exact none c mem isWhen
      rw [if_neg when_, if_neg when_]
      split
      · exact ih later
      · exact ih later

theorem declare_withBag (s : Loading) (bag : PropertyBag) (script : Path) (e : Element) :
    (s.withBag bag).declare script e = (s.declare script e).withBag bag := by
  unfold Loading.declare
  simp only
  split <;> rfl

/-- Visiting an element reads what it evaluates, unless it is a group of properties that are set. -/
theorem visitElement_withBag {es : List Element} {rest : List Task}
    (same : ∀ script' c x, Evaluates site ⟨s, [], .visit script (e :: es) :: rest⟩ script' c x →
      ∀ name ∈ x.references, bag.get? name = s.bag.get? name)
    (other : e.name = "PropertyGroup" → (s.check site script e).1 = false) :
    visitElement site (s.withBag bag) script e =
      ((visitElement site s script e).1.withBag bag, (visitElement site s script e).2) := by
  have checked := (onlyNotes_check site s script e).bag
  have own (guarded : IsGuarded e) : AgreesOnCondition s bag e :=
    fun text found => same script e _ (.elementCondition guarded found)
  unfold visitElement
  by_cases group : e.name = "PropertyGroup"
  · rw [if_pos group, if_pos group, check_withBag (own (.inl group))]
    simp only [other group, Bool.false_eq_true, if_false]
  rw [if_neg group, if_neg group]
  by_cases import_ : e.name = "Import"
  · rw [if_pos import_, if_pos import_, check_withBag (own (.inr (.inl import_)))]
    cases holds : (s.check site script e).1 with
    | false => simp only [holds, Bool.false_eq_true, if_false]
    | true =>
      have name : ((s.check site script e).2.withBag bag).bag.expand ((e.attribute? "Project").getD []) =
          (s.check site script e).2.bag.expand ((e.attribute? "Project").getD []) := by
        rw [checked]
        exact PropertyBag.expand_congr (same script e _ (.importName import_ holds))
      simp only [holds, if_true, name]
      split <;> rfl
  rw [if_neg import_, if_neg import_]
  by_cases imports : e.name = "ImportGroup"
  · rw [if_pos imports, if_pos imports, check_withBag (own (.inr (.inr imports)))]
  rw [if_neg imports, if_neg imports]
  by_cases choice : e.name = "Choose"
  · rw [if_pos choice, if_pos choice, selectBranch_withBag fun branch tried text found =>
      same script branch _ (.branchCondition choice tried found)]
  rw [if_neg choice, if_neg choice]
  by_cases target : e.name = "Target"
  · rw [if_pos target, if_pos target, declare_withBag]
  · rw [if_neg target, if_neg target]

/-- The step from a moment reads nothing but what it evaluates: in a bag with the same globals that agrees on all
references of what is evaluated, the step does the same, and the bags agree after it wherever they did before. -/
def ReadsEvaluated (site : Site) (m : Moment) : Prop :=
  ∀ m' bag, Advance site m m' → (∀ name, bag.isGlobal name = m.state.bag.isGlobal name) →
    (∀ script e x, Evaluates site m script e x → ∀ name ∈ x.references, bag.get? name = m.state.bag.get? name) →
      ∃ bag', Advance site (m.withBag bag) (m'.withBag bag') ∧
        (∀ name, bag'.isGlobal name = m'.state.bag.isGlobal name) ∧
        ∀ name, bag.get? name = m.state.bag.get? name → bag'.get? name = m'.state.bag.get? name

/-- **Nothing else is read**, at any moment. -/
theorem readsEvaluated (site : Site) (m : Moment) : ReadsEvaluated site m := by
  intro m' bag step globals same
  have enters (script : Path) (name : Text) : bag.get? name = m.state.bag.get? name →
      (bag.setGlobals (thisFileProperties script)).get? name =
        (m.state.bag.setGlobals (thisFileProperties script)).get? name :=
    fun agree => PropertyBag.get?_setGlobals_congr fun _ => agree
  cases step with
  | @assign s script e more tasks =>
    have condition : AgreesOnCondition s bag e := fun text found => same script e _ (.propertyCondition found)
    have step := @Advance.assign site (s.withBag bag) script e more tasks
    rw [applyProperty_eq, check_withBag condition] at step
    rw [applyProperty_eq]
    cases holds : (s.check site script e).1 with
    | false =>
      simp only [holds, Bool.false_eq_true, if_false] at step ⊢
      rw [(onlyNotes_check site s script e).bag]
      exact ⟨bag, step, globals, fun _ => id⟩
    | true =>
      have value : bag.expand (e.text?.getD []) = s.bag.expand (e.text?.getD []) :=
        PropertyBag.expand_congr (same script e _ (.propertyText holds))
      simp only [holds, if_true] at step ⊢
      refine ⟨bag.set e.name (Text.trim (bag.expand (e.text?.getD []))), step, fun name => ?_, fun name agree => ?_⟩
      · rw [PropertyBag.isGlobal_set, PropertyBag.isGlobal_set]
        exact globals name
      · rw [PropertyBag.get?_set, PropertyBag.get?_set, value, globals, agree]
  | @group s script e es rest named holds =>
    have condition : AgreesOnCondition s bag e :=
      fun text found => same script e _ (.elementCondition (.inl named) found)
    have checked := @check_withBag site s e bag condition script
    have step := @Advance.group site (s.withBag bag) script e es rest named ((congrArg Prod.fst checked).trans holds)
    rw [checked] at step
    rw [(onlyNotes_check site s script e).bag]
    exact ⟨bag, step, globals, fun _ => id⟩
  | @element s script e es rest other =>
    have step := @Advance.element site (s.withBag bag) script e es rest fun named => by
      have condition : AgreesOnCondition s bag e :=
        fun text found => same script e _ (.elementCondition (.inl named) found)
      rw [check_withBag condition]
      exact other named
    rw [visitElement_withBag same other] at step
    rw [(visit_visitElement site s script e).bag other]
    exact ⟨bag, step, globals, fun _ => id⟩
  | finish => exact ⟨bag, .finish, globals, fun _ => id⟩
  | @resume s script rest =>
    refine ⟨bag.setGlobals (thisFileProperties script), .resume, fun name => ?_, enters script⟩
    exact PropertyBag.isGlobal_setGlobals_congr (globals name)
  | skip old => exact ⟨bag, .skip old, globals, fun _ => id⟩
  | broken new read => exact ⟨bag, .broken new read, globals, fun _ => id⟩
  | @load s importer path rest root new read =>
    refine ⟨bag.setGlobals (thisFileProperties path), .load new read, fun name => ?_, enters path⟩
    exact PropertyBag.isGlobal_setGlobals_congr (globals name)

end Reads

/-! ## Whose texts are evaluated -/

/-- An element of a script that has been loaded. -/
def Belongs (tree : FileTree) (scripts : List Path) (script : Path) (e : Element) : Prop :=
  script ∈ scripts ∧ ∃ outer, readScript tree script = .ok outer ∧ e ∈ outer.descendants

section Moments

variable {tree : FileTree} {options : Options} {entry script : Path} {root e : Element} {m m' : Moment} {x : Evaluated}

/-- The properties of the present group belong to their script. -/
theorem Passes.belongs_properties (now : Passes tree options entry root m) (read : readScript tree entry = .ok root) :
    ∀ property ∈ m.properties, Belongs tree m.state.scripts property.1 property.2 := by
  induction now with
  | refl => exact nofun
  | tail before step ih =>
    have tasks := (Passes.orderly before read).tasks
    cases step with
    | @assign s script e more tasks' =>
      intro property mem
      rw [scripts_applyProperty]
      exact ih property (List.mem_cons_of_mem _ mem)
    | @group s script e es rest =>
      intro property mem
      obtain ⟨c, inside, rfl⟩ := List.mem_map.1 mem
      obtain ⟨loaded, outer, readable, below⟩ := tasks _ List.mem_cons_self
      rw [(onlyNotes_check _ s script e).scripts]
      refine ⟨loaded, outer, readable, ?_⟩
      exact mem_descendants_trans (below e List.mem_cons_self) (mem_descendants_of_mem_elements inside)
    | element | finish | resume | skip | broken | load => exact nofun

/-- What is evaluated belongs to an element of its script. -/
theorem Evaluates.belongs (h : Evaluates (siteOf tree options entry) m script e x)
    (now : Passes tree options entry root m) (read : readScript tree entry = .ok root) :
    Belongs tree m.state.scripts script e := by
  have properties := now.belongs_properties read
  have tasks := (now.orderly read).tasks
  cases h with
  | propertyCondition | propertyText => exact properties _ List.mem_cons_self
  | elementCondition | importName =>
    obtain ⟨loaded, outer, readable, below⟩ := tasks _ List.mem_cons_self
    exact ⟨loaded, outer, readable, below _ List.mem_cons_self⟩
  | branchCondition named tried =>
    obtain ⟨loaded, outer, readable, below⟩ := tasks _ List.mem_cons_self
    obtain ⟨before, after, parts, -, -⟩ := tried
    refine ⟨loaded, outer, readable, mem_descendants_trans (below _ List.mem_cons_self) ?_⟩
    exact mem_descendants_of_mem_elements (by rw [parts]; simp)

/-- The five properties name the script of what is evaluated. -/
theorem Evaluates.atScript (h : Evaluates (siteOf tree options entry) m script e x)
    (now : Passes tree options entry root m) : AtScript script m.state.bag := by
  have start : Located entry ⟨startOf options entry, [], [.visit entry root.elements]⟩ :=
    ⟨entry, atScript_startOf options entry, nofun, .visit (.nil entry)⟩
  obtain ⟨here, named, own, chain⟩ := start.run now
  cases h with
  | propertyCondition | propertyText =>
    obtain rfl := own _ List.mem_cons_self
    exact named
  | elementCondition | importName | branchCondition =>
    cases chain
    exact named

end Moments

/-- **The script being visited is named by its properties.** A script that can be read is loaded from moment to moment.
At each of them, what is evaluated belongs to an element of a script that was loaded, and the five properties that name
the script being visited name that one; and properties are read in no other way. -/
theorem evaluates_atScript {tree : FileTree} {options : Options} {entry : Path} {root : Element}
    (read : readScript tree entry = .ok root) :
    (∃ loaded, load tree options entry = .ok loaded ∧ Passes tree options entry root ⟨loaded.state, [], []⟩) ∧
      ∀ m, Passes tree options entry root m →
        (∀ script e x, Evaluates (siteOf tree options entry) m script e x →
          Belongs tree m.state.scripts script e ∧ AtScript script m.state.bag) ∧
        ReadsEvaluated (siteOf tree options entry) m := by
  refine ⟨⟨_, load_of_read read, reaches_run _ _ _⟩, fun m now => ⟨fun script e x h => ?_, readsEvaluated _ m⟩⟩
  exact ⟨h.belongs now read, h.atScript now⟩

namespace Sample

/-- The import of another script, and after it a property with the name of the script that it stands in. -/
def importer : FileTree :=
  ⟨.dir [("w", .dir [("a.proj", .file (Text.encode
      "<Project><Import Project=\"b.targets\"/><PropertyGroup><P>$(MSBuildThisFile)</P></PropertyGroup></Project>")),
    ("b.targets", .file (Text.encode "<Project/>"))])], ["w"]⟩

def here : Path := ⟨"/w/a.proj"⟩

def there : Path := ⟨"/w/b.targets"⟩

def importThere : Element := ⟨"Import", [("Project", "b.targets")], 1, []⟩

def property : Element := ⟨"P", [], 1, [.text "$(MSBuildThisFile)"]⟩

def outer : Element := ⟨"Project", [], 1, [importThere.node, .element "PropertyGroup" [] 1 [property.node]]⟩

/-- The property is set after the import was loaded. -/
theorem passes_property : ∃ m, Passes importer plain here outer m ∧ m.state.scripts = [here, there] ∧
    Evaluates (siteOf importer plain here) m here property (.plain "$(MSBuildThisFile)") := by
  have readable : readScript importer there = .ok ⟨"Project", [], 1, []⟩ := by decide +kernel
  have leads : resolveImport (siteOf importer plain here) here (importName (startOf plain here).bag importThere) =
      some [there] := by decide +kernel
  have visits : visitElement (siteOf importer plain here) (startOf plain here) here importThere =
      (startOf plain here, [.load here there]) := by
    rw [visitElement_import rfl rfl, leads]
    rfl
  have new : there.isOpenable ∧ (startOf plain here).hasTried there = false := by decide +kernel
  have imports := @Advance.element (siteOf importer plain here) (startOf plain here) here importThere
    [⟨"PropertyGroup", [], 1, [property.node]⟩] [] nofun
  rw [visits] at imports
  refine ⟨_, (((((ReflTransGen.single imports).tail (.load new readable)).tail .finish).tail .resume).tail
    (.group rfl rfl)), ?_, .propertyText rfl⟩
  rfl

end Sample

/-- In the sample the property is set in the script that it stands in, after another one was loaded. -/
theorem evaluates_property : ∃ m, Passes Sample.importer Sample.plain Sample.here Sample.outer m ∧
    Sample.there ∈ m.state.scripts ∧
    Evaluates (siteOf Sample.importer Sample.plain Sample.here) m Sample.here Sample.property (.plain "$(MSBuildThisFile)") ∧
    m.state.bag.get? "MSBuildThisFile" = some ("a.proj".toList : Text) := by
  obtain ⟨m, now, scripts, evaluates⟩ := Sample.passes_property
  have read : readScript Sample.importer Sample.here = .ok Sample.outer := by decide +kernel
  obtain ⟨-, named⟩ := ((evaluates_atScript read).2 m now).1 _ _ _ evaluates
  have value : m.state.bag.get? "MSBuildThisFile" = some (Sample.here.fileName?.getD []) :=
    named.value _ _ List.mem_cons_self
  exact ⟨m, now, by rw [scripts]; simp, evaluates, value.trans (by decide +kernel)⟩

end SolutionGraph.Target
