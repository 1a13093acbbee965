import SolutionGraph.Proofs.Target.Loading

/-!
# The script being visited

Five properties name the script being visited (`AtScript`). Loading an import changes them, and they change back
after it: the tasks that are left go from script to script as a chain (`Chain`), in which each return names the script
that the tasks after it belong to. So the properties name the script of the first task at every moment
(`Located.step`), and at the end of a script that script again (`atScript_run`).
-/

namespace SolutionGraph.Target

open Markup (Element)
open Relation (ReflTransGen)
open PropertyBag (isNamed)

/-- The names of the properties that name the script being visited. -/
def thisFileNames : List Text :=
  ["MSBuildThisFile".toList, "MSBuildThisFileDirectory".toList, "MSBuildThisFileFullPath".toList,
    "MSBuildThisFileName".toList, "MSBuildThisFileExtension".toList]

/-- Whether a property names the script being visited. -/
def isThisFile (name : Text) : Bool := thisFileNames.any fun own => Text.asciiLower name = Text.asciiLower own

theorem isNamed_thisFileProperties (script : Path) (name : Text) :
    isNamed (thisFileProperties script) name = isThisFile name := rfl

theorem exists_of_isThisFile {name : Text} (own : isThisFile name = true) (script : Path) :
    ∃ spelled value, (spelled, value) ∈ thisFileProperties script ∧ Text.asciiLower name = Text.asciiLower spelled := by
  rw [← isNamed_thisFileProperties script] at own
  obtain ⟨⟨spelled, value⟩, mem, same⟩ := List.any_eq_true.1 own
  exact ⟨spelled, value, mem, of_decide_eq_true same⟩

theorem distinct_thisFileProperties (script : Path) :
    (thisFileProperties script).Pairwise fun e e' => Text.asciiLower e.1 ≠ Text.asciiLower e'.1 := by
  have names : (thisFileProperties script).map Prod.fst = thisFileNames := rfl
  have distinct : thisFileNames.Pairwise fun name name' => Text.asciiLower name ≠ Text.asciiLower name' := by decide
  rw [← names, List.pairwise_map] at distinct
  exact distinct

/-! ## At a script -/

/-- The five properties name a script, and are global. -/
structure AtScript (script : Path) (bag : PropertyBag) : Prop where
  value : ∀ name value, (name, value) ∈ thisFileProperties script → bag.get? name = some value
  global : ∀ name, isThisFile name = true → bag.isGlobal name = true

theorem atScript_setGlobals (script : Path) (bag : PropertyBag) : AtScript script (bag.setGlobals (thisFileProperties script)) where
  value := fun name value mem => PropertyBag.get?_setGlobals_of_mem (distinct_thisFileProperties script) mem
  global := by
    intro name own
    rw [PropertyBag.isGlobal_setGlobals, isNamed_thisFileProperties, own, Bool.true_or]

theorem atScript_startOf (options : Options) (entry : Path) : AtScript entry (startOf options entry).bag :=
  atScript_setGlobals entry (seedProperties options entry)

theorem AtScript.set {script : Path} {bag : PropertyBag} (h : AtScript script bag) (name value : Text) :
    AtScript script (bag.set name value) where
  value := by
    intro own kept mem
    rw [PropertyBag.get?_set, if_neg, h.value own kept mem]
    rintro ⟨same, free⟩
    have named : isThisFile own = true := by
      rw [← isNamed_thisFileProperties script]
      exact List.any_eq_true.2 ⟨_, mem, decide_eq_true rfl⟩
    rw [← PropertyBag.isGlobal_congr same, h.global own named] at free
    cases free
  global := by
    intro own named
    rw [PropertyBag.isGlobal_set]
    exact h.global own named

/-! ## Chains of tasks -/

/-- Tasks that start in one script and end in another one: each belongs to the script that loading is in, and a return
goes to the script of the tasks after it. -/
inductive Chain : Path → List Task → Path → Prop
  | nil (script : Path) : Chain script [] script
  | visit {script last : Path} {es : List Element} {rest : List Task} (h : Chain script rest last) :
    Chain script (.visit script es :: rest) last
  | load {script last path : Path} {rest : List Task} (h : Chain script rest last) :
    Chain script (.load script path :: rest) last
  | resume {script last : Path} (inside : Path) {rest : List Task} (h : Chain script rest last) :
    Chain inside (.resume script :: rest) last

theorem Chain.loads {script last : Path} {rest : List Task} (h : Chain script rest last) (paths : List Path) :
    Chain script (paths.map (Task.load script) ++ rest) last := by
  induction paths with
  | nil => exact h
  | cons path paths ih => exact .load ih

/-- What an element leaves to be done belongs to its script. -/
theorem Chain.of_visit {site : Site} {s s' : Loading} {script last : Path} {e : Element} {tasks rest : List Task}
    (visit : Visit site s script e s' tasks) (h : Chain script rest last) : Chain script (tasks ++ rest) last := by
  cases visit with
  | pass | group | unresolved | target => exact h
  | resolved => exact h.loads _
  | inner => exact .visit h

/-- A moment at which the five properties name the script that loading is in. -/
def Located (last : Path) (m : Moment) : Prop :=
  ∃ script, AtScript script m.state.bag ∧ (∀ property ∈ m.properties, property.1 = script) ∧ Chain script m.tasks last

theorem Located.step {site : Site} {last : Path} {m m' : Moment} (h : Located last m) (step : Advance site m m') :
    Located last m' := by
  obtain ⟨script, here, own, chain⟩ := h
  cases step with
  | @assign s script' e more tasks =>
    refine ⟨script, ?_, fun property mem => own property (List.mem_cons_of_mem _ mem), chain⟩
    obtain kept | ⟨name, value, set⟩ := bag_applyProperty site script' s e
    · exact kept ▸ here
    · exact set ▸ here.set name value
  | @group s script' e es rest =>
    cases chain with | visit chain
    refine ⟨script, (onlyNotes_check site s script e).bag ▸ here, fun property mem => ?_, .visit chain⟩
    obtain ⟨_, _, rfl⟩ := List.mem_map.1 mem
    rfl
  | @element s script' e es rest other =>
    cases chain with | visit chain
    have visit := visit_visitElement site s script e
    exact ⟨script, visit.bag other ▸ here, own, .of_visit visit (.visit chain)⟩
  | finish =>
    cases chain with | visit chain
    exact ⟨script, here, own, chain⟩
  | @resume s importer rest =>
    cases chain with | resume _ chain
    exact ⟨importer, atScript_setGlobals importer s.bag, nofun, chain⟩
  | skip =>
    cases chain with | load chain
    exact ⟨script, here, own, chain⟩
  | broken =>
    cases chain with | load chain
    exact ⟨script, here, own, chain⟩
  | @load s importer path rest =>
    cases chain with | load chain
    exact ⟨path, atScript_setGlobals path s.bag, nofun, .visit (.resume path chain)⟩

theorem Located.run {site : Site} {last : Path} {m m' : Moment} (h : Located last m)
    (reaches : ReflTransGen (Advance site) m m') : Located last m' := by
  induction reaches with
  | refl => exact h
  | tail _ step ih => exact ih.step step

theorem atScript_run (site : Site) {script : Path} {s : Loading} (es : List Element) (here : AtScript script s.bag) :
    AtScript script (run site s [.visit script es]).bag := by
  have start : Located script ⟨s, [], [.visit script es]⟩ := ⟨script, here, nofun, .visit (.nil script)⟩
  obtain ⟨script', there, -, chain⟩ := start.run (reaches_run site s [.visit script es])
  cases chain
  exact there

end SolutionGraph.Target
